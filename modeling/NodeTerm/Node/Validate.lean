import NodeTerm.Node.State
import Mathlib.Algebra.Group.Int.Defs

/-! The validators of the machine-local fields: what each one accepts, and the cleaned value it
keeps. A value is valid when its validator gives it back unchanged. -/
namespace NodeTerm.Node

/-- What `new URL` exposes of a parsed URL. -/
structure Url where
  protocol : String
  username : String
  password : String
  hostname : String
  port : Option ℕ
  hash : String
  search : String
  pathname : String
  href : String

/-- The parsers of the JavaScript runtime. `parseUrl` gives `none` where `new URL` throws. -/
structure Web where
  parseUrl : String → Option Url
  dateParses : String → Bool

def isControl (c : Char) : Bool := c.toNat < 0x20 || c.toNat == 0x7f

def hasControl (s : String) : Bool := s.toList.any isControl

def isJsSpace (c : Char) : Bool :=
  (9 ≤ c.toNat && c.toNat ≤ 13) || c.toNat == 0x20 || c.toNat == 0xa0 || c.toNat == 0x1680 ||
    (0x2000 ≤ c.toNat && c.toNat ≤ 0x200a) || c.toNat == 0x2028 || c.toNat == 0x2029 ||
    c.toNat == 0x202f || c.toNat == 0x205f || c.toNat == 0x3000 || c.toNat == 0xfeff

/-- `String.prototype.trim`. -/
def jsTrim (s : String) : String :=
  String.ofList (((s.toList.dropWhile isJsSpace).reverse.dropWhile isJsSpace).reverse)

def oneOf (chars : String) (c : Char) : Bool := chars.toList.contains c

/-- One leading character, then up to `max` more. -/
def matchesId (first rest : Char → Bool) (max : ℕ) (s : String) : Bool :=
  match s.toList with
  | [] => false
  | c :: cs => first c && cs.all rest && cs.length ≤ max

def isAlnum (c : Char) : Bool := c.isAlphanum

def isLowerHex (c : Char) : Bool := c.isDigit || ('a' ≤ c && c ≤ 'f')

def isHex (c : Char) : Bool := isLowerHex c || ('A' ≤ c && c ≤ 'F')

/-! Paths. -/

/-- `safePathString`, and `safeVirtualMachinePath`, which reads the same. -/
def safePathString (s : String) : Bool := s != "" && jsLength s ≤ 4096 && !hasControl s

def safeMediaAssetId (s : String) : Bool := s.length == 64 && s.toList.all isLowerHex

def maxMediaSourcePaths : ℕ := 10000

def safeNsisLocalPaths (raw : NsisLocalPaths) : Option NsisLocalPaths :=
  let out : NsisLocalPaths :=
    { sourcePaths := (raw.sourcePaths.filter safePathString).take 512
      licensePath := raw.licensePath.filter safePathString
      iconPath := raw.iconPath.filter safePathString }
  if out.sourcePaths = [] ∧ out.licensePath = none ∧ out.iconPath = none then none else some out

def normalizeVirtualMachineLocalPaths (raw : Option VirtualMachineLocalPaths) : VirtualMachineLocalPaths :=
  match raw with
  | none => {}
  | some raw =>
    { isoPath := raw.isoPath.filter safePathString
      diskPath := raw.diskPath.filter safePathString
      diskFormat := raw.diskFormat }

/-! Delayed launches. -/

def safeOpaqueId (s : String) : Bool := matchesId isAlnum (fun c => isAlnum c || oneOf "._-" c) 255 s

def uuidV4 (s : String) : Bool :=
  match s.toList.splitOn '-' with
  | [a, b, c, d, e] =>
    a.length == 8 && b.length == 4 && c.length == 4 && d.length == 4 && e.length == 12 &&
      (a ++ b ++ c ++ d ++ e).all isHex && c.head? == some '4' && (d.head?.any (oneOf "89abAB"))
  | _ => false

def builtinAgentIds : List String :=
  ["claude", "codex", "gemini", "opencode", "grok", "copilot", "devin"]

def isSafeAgentId (s : String) : Bool :=
  builtinAgentIds.contains s ||
    ("custom:".toList.isPrefixOf s.toList && safeOpaqueId (String.ofList (s.toList.drop 7)))

def isPermissionMode (s : String) : Bool :=
  ["manual", "auto", "acceptEdits", "plan", "bypassPermissions"].contains s

def safeModel (s : String) : Bool :=
  s != "" && s.length ≤ 500 && s.toList.all fun c =>
    !isControl c && c.toNat != 0x2028 && c.toNat != 0x2029

def maxIntentText : ℕ := 1024 * 1024

def safeLaunchIntent : TerminalLaunchIntent → Bool
  | .shellCommand command => command != "" && jsLength command ≤ maxIntentText
  | .start agentId prompt permissionMode model newSessionId =>
    isSafeAgentId agentId && permissionMode.all isPermissionMode &&
      prompt.all (fun p => jsLength p ≤ maxIntentText) && model.all safeModel &&
      newSessionId.all safeOpaqueId
  | .resume agentId sessionId permissionMode model =>
    isSafeAgentId agentId && permissionMode.all isPermissionMode && model.all safeModel &&
      safeOpaqueId sessionId

/-- `clonePendingLaunch`: the allowed shape rebuilt, without the legacy rendered command. -/
def clonePendingLaunch (raw : PendingLaunch) : Option PendingLaunch :=
  if raw.after.length ≤ 256 ∧ raw.after.all safeOpaqueId ∧ uuidV4 raw.launchId ∧
      safeLaunchIntent raw.launch ∧ raw.awaitSetupGroup.all safeOpaqueId then
    some { raw with command := none }
  else none

/-! Service endpoints and bindings. -/

section Web
variable (W : Web)

def safeServiceEndpoint (s : String) : Bool :=
  s != "" && jsLength s ≤ 2048 && !hasControl s &&
    match W.parseUrl s with
    | none => false
    | some url =>
      ["http:", "https:", "ssh:"].contains url.protocol && url.password == "" &&
        (url.username == "" || url.protocol == "ssh:") && url.hostname != ""

def safeCredentialKey (s : String) : Bool :=
  matchesId isAlnum (fun c => isAlnum c || oneOf "._:-" c) 255 s

def isHostname (s : String) : Bool :=
  matchesId isAlnum (fun c => isAlnum c || oneOf ".-" c) 252 s && s.toList.getLast?.any isAlnum

def isOriginPath (s : String) : Bool :=
  matchesId (· == '/') (fun c => isAlnum c || oneOf "._~!$&'()*+,;=:@%/-" c) 1023 s

def parseHostedServiceOrigin (s : String) : Option HostedServiceOrigin :=
  if s = "" ∨ 2048 < jsLength s then none
  else match W.parseUrl s with
  | none => none
  | some url =>
    let path := if url.pathname = "" then "/" else url.pathname
    if url.protocol ≠ "http:" ∧ url.protocol ≠ "https:" then none
    else if url.username ≠ "" ∨ url.password ≠ "" ∨ url.hash ≠ "" ∨ url.search ≠ "" then none
    else if !isHostname url.hostname then none
    else if !url.port.all (fun p => 1 ≤ p && p ≤ 65535) then none
    else if !isOriginPath path then none
    else some
      { https := url.protocol == "https:"
        hostname := url.hostname.toLower
        port := url.port
        path := path }

def formatHostedServiceOrigin (origin : HostedServiceOrigin) : String :=
  (if origin.https then "https" else "http") ++ "://" ++ origin.hostname ++
    (match origin.port with
      | none => ""
      | some port => ":" ++ toString port) ++
    (if origin.path = "" then "/" else origin.path)

def validateHostedServiceTunnelBinding (raw : HostedServiceTunnelBinding) : Option HostedServiceTunnelBinding :=
  match parseHostedServiceOrigin W (formatHostedServiceOrigin raw.origin) with
  | none => none
  | some origin =>
    if safeCredentialKey raw.accountId && safeCredentialKey raw.zoneId &&
        isHostname (jsTrim raw.hostname) && jsLength raw.hostname ≤ 253 && W.dateParses raw.updatedAt then
      some { raw with hostname := raw.hostname.toLower, origin := origin }
    else none

def safeServiceConnection (raw : ServiceConnection) : Option ServiceConnection :=
  if safeServiceEndpoint W raw.endpoint then
    some
      { endpoint := raw.endpoint
        credentialKey := raw.credentialKey.filter safeCredentialKey
        tunnel := raw.tunnel.bind (validateHostedServiceTunnelBinding W) }
  else none

def safeOpenWebUiEndpoint (s : String) : Bool :=
  s != "" && jsLength s ≤ 2048 && !hasControl s &&
    match W.parseUrl s with
    | none => false
    | some url =>
      ["http:", "https:"].contains url.protocol && url.username == "" && url.password == "" &&
        url.hostname != ""

def safeDockerName (s : String) : Bool :=
  matchesId isAlnum (fun c => isAlnum c || oneOf "_.-" c) 127 s

def openWebUiImage : String := "ghcr.io/open-webui/open-webui:v0.6.37"

/-- An optional text that the source tests for truth before it keeps it. -/
def nonEmpty (s : Option String) : Option String := s.filter (· != "")

def safeOpenWebUiLocalBinding (raw : OpenWebUiLocalBinding) : Option OpenWebUiLocalBinding :=
  if safeDockerName (jsTrim raw.context) && safeDockerName raw.containerName &&
      safeDockerName raw.volumeName && safeOpenWebUiEndpoint W raw.endpoint &&
      raw.image == openWebUiImage && raw.providerEndpoint.all (safeOpenWebUiEndpoint W) &&
      raw.providerCredentialKey.all (fun key => safeCredentialKey (jsTrim key)) &&
      raw.previousImage.all (fun image => jsLength image ≤ 256) then
    some
      { raw with
        context := jsTrim raw.context
        providerEndpoint := nonEmpty raw.providerEndpoint
        providerCredentialKey := nonEmpty raw.providerCredentialKey
        previousImage := nonEmpty raw.previousImage }
  else none

/-- `safeEndpoint` of the AWS identity: the normalized address. -/
def safeAwsEndpoint (s : String) : Option String :=
  if 2048 < jsLength s ∨ hasControl s then none
  else match W.parseUrl s with
  | none => none
  | some url =>
    let loopback := url.protocol == "http:" && ["127.0.0.1", "localhost", "::1"].contains url.hostname
    if url.protocol ≠ "https:" ∧ !loopback then none
    else if url.username ≠ "" ∨ url.password ≠ "" ∨ url.hash ≠ "" then none
    else some url.href

def safeAwsName (s : String) : Bool :=
  matchesId isAlnum (fun c => isAlnum c || oneOf "_.@+-" c) 127 s

def safeAwsService (s : String) : Bool :=
  matchesId Char.isLower (fun c => c.isLower || c.isDigit || c == '-') 63 s

def safeAwsRegion (s : String) : Bool :=
  let zone (area name number : List Char) : Bool :=
    area.length == 2 && area.all Char.isLower && !name.isEmpty && name.all Char.isLower &&
      number.length == 1 && number.all Char.isDigit
  match s.toList.splitOn '-' with
  | [area, name, number] => zone area name number
  | [area, gov, name, number] => gov == "gov".toList && zone area name number
  | _ => false

/-- The loop over the endpoints: each service once, each address normalized. -/
def normalizeAwsEndpoints (services : List String) : List AwsEndpointOverride → Option (List AwsEndpointOverride)
  | [] => some []
  | endpoint :: rest =>
    if !safeAwsService endpoint.service then none
    else match safeAwsEndpoint W endpoint.url with
    | none => none
    | some url =>
      if url = "" ∨ services.contains endpoint.service then none
      else (normalizeAwsEndpoints (endpoint.service :: services) rest).map
        (⟨endpoint.service, url⟩ :: ·)

def normalizeAwsIdentityBinding (raw : AwsIdentityBinding) : Option AwsIdentityBinding :=
  if raw.schemaVersion = 1 ∧ safeAwsName raw.profileName ∧ raw.region.all safeAwsRegion ∧
      raw.endpoints.length ≤ 32 ∧ raw.verifiedAt.all (fun time => 0 ≤ time && time < 2 ^ 53) then
    (normalizeAwsEndpoints W [] raw.endpoints).map fun endpoints => { raw with endpoints := endpoints }
  else none

end Web

def safeNextcloudPath (s : String) : Bool :=
  let normalized := s.toList.map fun c => if c = '\\' then '/' else c
  let absolute := normalized.head? == some '/' ||
    match normalized with
    | drive :: ':' :: '/' :: _ => drive.isAlpha
    | _ => false
  s != "" && jsLength s ≤ 2048 && !hasControl s && absolute &&
    !(normalized.splitOn '/').contains "..".toList

/-- `validateNextcloudManagedBinding`; `none` where it throws. -/
def validateNextcloudManagedBinding (raw : NextcloudManagedBinding) : Option NextcloudManagedBinding :=
  if raw.bindingVersion = 1 ∧ matchesId isAlnum (fun c => isAlnum c || oneOf "._-" c) 127 raw.context ∧
      matchesId (fun c => c.isLower || c.isDigit)
        (fun c => c.isLower || c.isDigit || oneOf "._-" c) 62 raw.projectName ∧
      safeNextcloudPath raw.dataDirectory ∧ safeNextcloudPath raw.backupDirectory ∧
      raw.secretKeys.length = 3 ∧ raw.secretKeys.all safeCredentialKey ∧
      1024 ≤ raw.loopbackPort ∧ raw.loopbackPort ≤ 65535 ∧
      raw.lastVerifiedAt.all (fun time => 0 ≤ time && time < 2 ^ 53) then some raw
  else none

end NodeTerm.Node
