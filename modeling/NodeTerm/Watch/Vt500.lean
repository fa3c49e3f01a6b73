import Mathlib.Tactic.Common

/-! The VT500 state table of the terminal that renders the owner's node, as far as it decides where a
string-type escape sequence starts, what is its payload and where it ends. -/
namespace NodeTerm.Watch

/-- The columns of the table: code units that every row treats alike. -/
inductive CodeClass where
  | executable | bel | cancel | escape | intermediate | parameter | prefixed
  | csi7 | dcs7 | osc7 | sosPmApc7 | backslash | final | delete
  | c1 | csi8 | dcs8 | osc8 | sosPmApc8 | st8 | nonAscii
  deriving DecidableEq, Repr

/-- The column of a code unit. U+00A0 and up share one. -/
def classify (c : ℕ) : CodeClass :=
  if c == 0x07 then .bel
  else if c == 0x18 || c == 0x1a then .cancel
  else if c == 0x1b then .escape
  else if c ≤ 0x1f then .executable
  else if c ≤ 0x2f then .intermediate
  else if c ≤ 0x3b then .parameter
  else if c ≤ 0x3f then .prefixed
  else if c == 0x50 then .dcs7
  else if c == 0x58 || c == 0x5e || c == 0x5f then .sosPmApc7
  else if c == 0x5b then .csi7
  else if c == 0x5c then .backslash
  else if c == 0x5d then .osc7
  else if c ≤ 0x7e then .final
  else if c == 0x7f then .delete
  else if c == 0x90 then .dcs8
  else if c == 0x98 || c == 0x9e || c == 0x9f then .sosPmApc8
  else if c == 0x9b then .csi8
  else if c == 0x9c then .st8
  else if c == 0x9d then .osc8
  else if c ≤ 0x9f then .c1
  else .nonAscii

/-- The rows of the table. -/
inductive VtState where
  | ground | escape | escapeIntermediate
  | csiEntry | csiParam | csiIntermediate | csiIgnore
  | sosPmApcString | oscString
  | dcsEntry | dcsParam | dcsIgnore | dcsIntermediate | dcsPassthrough
  deriving DecidableEq, Repr

/-- The rules that hold in every state: CAN, SUB and the C1 controls, ESC, ST and the 8-bit
introducers. -/
def anywhere : CodeClass → Option VtState
  | .cancel | .c1 | .st8 => some .ground
  | .escape => some .escape
  | .osc8 => some .oscString
  | .sosPmApc8 => some .sosPmApcString
  | .csi8 => some .csiEntry
  | .dcs8 => some .dcsEntry
  | _ => none

/-- The rules of one state; what the table does not list is an error and leads to ground. -/
def ownRule : VtState → CodeClass → VtState
  | .ground, _ => .ground
  | .escape, .executable | .escape, .bel | .escape, .delete => .escape
  | .escape, .osc7 => .oscString
  | .escape, .sosPmApc7 => .sosPmApcString
  | .escape, .dcs7 => .dcsEntry
  | .escape, .csi7 => .csiEntry
  | .escape, .intermediate => .escapeIntermediate
  | .escape, _ => .ground
  | .escapeIntermediate, .executable | .escapeIntermediate, .bel | .escapeIntermediate, .delete
  | .escapeIntermediate, .intermediate => .escapeIntermediate
  | .escapeIntermediate, _ => .ground
  | .csiEntry, .executable | .csiEntry, .bel | .csiEntry, .delete => .csiEntry
  | .csiEntry, .parameter | .csiEntry, .prefixed => .csiParam
  | .csiEntry, .intermediate => .csiIntermediate
  | .csiEntry, _ => .ground
  | .csiParam, .executable | .csiParam, .bel | .csiParam, .delete
  | .csiParam, .parameter => .csiParam
  | .csiParam, .prefixed => .csiIgnore
  | .csiParam, .intermediate => .csiIntermediate
  | .csiParam, _ => .ground
  | .csiIntermediate, .executable | .csiIntermediate, .bel | .csiIntermediate, .delete
  | .csiIntermediate, .intermediate => .csiIntermediate
  | .csiIntermediate, .parameter | .csiIntermediate, .prefixed => .csiIgnore
  | .csiIntermediate, _ => .ground
  | .csiIgnore, .executable | .csiIgnore, .bel | .csiIgnore, .delete | .csiIgnore, .intermediate
  | .csiIgnore, .parameter | .csiIgnore, .prefixed | .csiIgnore, .nonAscii => .csiIgnore
  | .csiIgnore, _ => .ground
  | .sosPmApcString, .nonAscii => .ground
  | .sosPmApcString, _ => .sosPmApcString
  | .oscString, .bel => .ground
  | .oscString, _ => .oscString
  | .dcsEntry, .executable | .dcsEntry, .bel | .dcsEntry, .delete => .dcsEntry
  | .dcsEntry, .parameter | .dcsEntry, .prefixed => .dcsParam
  | .dcsEntry, .intermediate => .dcsIntermediate
  | .dcsEntry, .nonAscii => .ground
  | .dcsEntry, _ => .dcsPassthrough
  | .dcsParam, .executable | .dcsParam, .bel | .dcsParam, .delete | .dcsParam, .parameter => .dcsParam
  | .dcsParam, .prefixed => .dcsIgnore
  | .dcsParam, .intermediate => .dcsIntermediate
  | .dcsParam, .nonAscii => .ground
  | .dcsParam, _ => .dcsPassthrough
  | .dcsIntermediate, .executable | .dcsIntermediate, .bel | .dcsIntermediate, .delete
  | .dcsIntermediate, .intermediate => .dcsIntermediate
  | .dcsIntermediate, .parameter | .dcsIntermediate, .prefixed => .dcsIgnore
  | .dcsIntermediate, .nonAscii => .ground
  | .dcsIntermediate, _ => .dcsPassthrough
  | .dcsIgnore, .nonAscii => .ground
  | .dcsIgnore, _ => .dcsIgnore
  | .dcsPassthrough, _ => .dcsPassthrough

/-- One step of the terminal's parser. -/
def VtState.next (q : VtState) (k : CodeClass) : VtState := (anywhere k).getD (ownRule q k)

/-- The terminal's parser after a stream that starts in ground. -/
def VtState.after (stream : List ℕ) : VtState :=
  stream.foldl (fun q c => q.next (classify c)) .ground

theorem VtState.after_append (xs ys : List ℕ) :
    VtState.after (xs ++ ys) = ys.foldl (fun q c => q.next (classify c)) (VtState.after xs) :=
  List.foldl_append

def VtState.isString : VtState → Bool
  | .sosPmApcString | .oscString | .dcsEntry | .dcsParam | .dcsIgnore | .dcsIntermediate
  | .dcsPassthrough => true
  | _ => false

/-- Read in a string, a code unit is payload unless it ends the string or starts another one. -/
def VtState.isPayload (q : VtState) (k : CodeClass) : Bool :=
  q.isString && (anywhere k).isNone && (q.next k).isString

end NodeTerm.Watch
