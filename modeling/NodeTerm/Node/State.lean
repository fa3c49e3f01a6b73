import Mathlib.Data.List.Basic
import Mathlib.Algebra.GroupWithZero.Nat

/-! The canvas node as the program holds it in memory. The fields that some modelled function
reads or writes are named; every other field travels unread in `rest`. -/
namespace NodeTerm.Node

/-- `String.length` of the source: the number of UTF-16 code units. -/
def jsLength (s : String) : Nat := (s.toList.map fun c => if c.toNat < 0x10000 then 1 else 2).sum

/-- `NodeKind`, the persisted kind discriminator. -/
inductive NodeKind where
  | terminal | sticky | group | editor | diff | photo | gallery | wildDimSum | video | audio | web
  | browser | files | subagent | loop | scheduler | dino | recoveryGame | annotation | shop
  | awsShop | awsUniverse | awsResource | unigetui | nsis | awsWizard | browserPortal
  | debugBrowser | kiosk | awsService | portalDoor | xproject | authenticator | converter
  | calendar | homeassistantControl | timer | alarm | trigger | minecraft | dockerhost | proxmox
  | gitlab | gitlabHosting | homeassistant | homeassistantSensor | freepbx | openWebuiHosting
  | cloudflareTunnel | awsidentity | nextcloudAio | nextcloudManaged | cloudflareZeroTrust
  | cloudflareCoreManagers | torrent | linuxVm | githubWorkItem | windowsDiagnostics | veracrypt
  | repositoryGraph | portal
  deriving DecidableEq, Repr

/-- The fields of a record that no modelled function reads, by name, as JSON text in key order. -/
abbrev Fields := List (String × String)

/-- `SshConnection`. -/
structure SshConnection where
  host : String
  user : String
  port : Option Nat := none
  identityFile : Option String := none
  extraArgs : Option String := none
  execTrusted : Option Bool := none
  identityAgentSock : Option String := none
  deriving DecidableEq, Repr

/-- `TerminalLaunchIntent`: an agent start, an agent resume, or one opaque shell command. -/
inductive TerminalLaunchIntent where
  | start (agentId : String) (prompt permissionMode model newSessionId : Option String)
  | resume (agentId sessionId : String) (permissionMode model : Option String)
  | shellCommand (command : String)
  deriving DecidableEq, Repr

/-- `PendingLaunch`: a launch held behind other nodes. -/
structure PendingLaunch where
  after : List String
  launchId : String
  launch : TerminalLaunchIntent
  command : Option String := none
  awaitSetupGroup : Option String := none
  deriving DecidableEq, Repr

/-- `HostedServiceOrigin`. -/
structure HostedServiceOrigin where
  https : Bool
  hostname : String
  port : Option Nat := none
  path : String
  deriving DecidableEq, Repr

/-- `HostedServiceTunnelState`. -/
inductive HostedServiceTunnelState where
  | unbound | discoveringOrigin | checkingLocalHealth | ready | handingOff | connected | failed
  | rolledBack
  deriving DecidableEq, Repr

/-- `HostedServiceTunnelBinding`. -/
structure HostedServiceTunnelBinding where
  accountId : String
  zoneId : String
  hostname : String
  origin : HostedServiceOrigin
  state : HostedServiceTunnelState
  updatedAt : String
  deriving DecidableEq, Repr

/-- `ServiceConnection`. -/
structure ServiceConnection where
  endpoint : String
  credentialKey : Option String := none
  tunnel : Option HostedServiceTunnelBinding := none
  deriving DecidableEq, Repr

/-- `OpenWebUiLocalBinding`. -/
structure OpenWebUiLocalBinding where
  context : String
  containerName : String
  volumeName : String
  endpoint : String
  providerEndpoint : Option String := none
  providerCredentialKey : Option String := none
  image : String
  previousImage : Option String := none
  lastBackupAt : Option Int := none
  updatedAt : Int
  deriving DecidableEq, Repr

/-- `AwsEndpointOverride`. -/
structure AwsEndpointOverride where
  service : String
  url : String
  deriving DecidableEq, Repr

/-- `AwsIdentityBinding`. -/
structure AwsIdentityBinding where
  schemaVersion : Nat := 1
  profileName : String
  region : Option String := none
  endpoints : List AwsEndpointOverride := []
  verifiedAt : Option Int := none
  deriving DecidableEq, Repr

/-- `NextcloudManagedBinding`. -/
structure NextcloudManagedBinding where
  bindingVersion : Nat := 1
  context : String
  projectName : String
  dataDirectory : String
  backupDirectory : String
  secretKeys : List String
  loopbackPort : Nat
  lastVerifiedAt : Option Int := none
  deriving DecidableEq, Repr

/-- `NsisLocalPaths`. -/
structure NsisLocalPaths where
  sourcePaths : List String
  licensePath : Option String := none
  iconPath : Option String := none
  deriving DecidableEq, Repr

/-- `VirtualMachineLocalPaths.diskFormat`. -/
inductive DiskFormat where
  | qcow2 | raw | unknown
  deriving DecidableEq, Repr

/-- `VirtualMachineLocalPaths`. -/
structure VirtualMachineLocalPaths where
  isoPath : Option String := none
  diskPath : Option String := none
  diskFormat : Option DiskFormat := none
  deriving DecidableEq, Repr

/-- `MediaAssetReference`; only `assetId` and the machine-local `sourcePath` are read here. -/
structure MediaAssetReference where
  assetId : String
  sourcePath : Option String := none
  rest : Fields := []
  deriving DecidableEq, Repr

/-- `CanvasNodeState`. -/
structure CanvasNodeState where
  id : String
  kind : NodeKind
  title : String := ""
  group : Option String := none
  creationEventId : Option String := none
  nonDeletable : Option Bool := none
  shell : Option String := none
  terminalProfileId : Option String := none
  namedTerminalProfileId : Option String := none
  cwd : Option String := none
  ssh : Option SshConnection := none
  clearEnv : Option Bool := none
  pendingLaunch : Option PendingLaunch := none
  serviceConnection : Option ServiceConnection := none
  openWebUiLocalBinding : Option OpenWebUiLocalBinding := none
  awsIdentityBinding : Option AwsIdentityBinding := none
  nextcloudManagedBinding : Option NextcloudManagedBinding := none
  nsisLocalPaths : Option NsisLocalPaths := none
  virtualMachineLocalPaths : Option VirtualMachineLocalPaths := none
  filePath : Option String := none
  mediaAssets : Option (List MediaAssetReference) := none
  rest : Fields := []
  deriving DecidableEq, Repr

end NodeTerm.Node
