import NodeTerm.Board.Entry

/-! The framing of the session host's socket, the same on both of its sides: a frame is a line of JSON, and the bytes of
the lines come in chunks. -/
namespace NodeTerm.SessionHost.Framing
open Base Board List

def MAX_FRAME_BYTES : ℕ := 64 * 1024 * 1024

/-- The properties of a request, a response or an event. -/
abbrev Frame := List (Units × Json)

def encodeFrame (frame : Frame) : List Char := Json.chars (.obj frame) ++ ['\n']

/-- One line in `LineFramer.push`. A malformed one is dropped. -/
def parseFrame (line : List Char) : Option Json :=
  let trimmed := trim (Utf16.encode line)
  if trimmed = [] then none else Json.parse trimmed

/-- `LineFramer.push`. `none` stands for `FrameTooLargeError`. -/
def push (buf chunk : List Char) : Option (List Json × List Char) :=
  let lines := (buf ++ chunk).splitOn '\n'
  if MAX_FRAME_BYTES < (Utf16.encode (buf ++ chunk)).length ∧ '\n' ∉ buf ++ chunk then none
  else some (lines.dropLast.filterMap parseFrame, lines.getLastD [])

/-- What the handler of the socket's `data` passes on. It makes a text of each chunk for itself, and drops the
connection where a frame is too large. -/
def received : List Char → List (List UInt8) → List Json
  | _, [] => []
  | buf, chunk :: chunks =>
    match push buf (Utf8.decode chunk) with
    | none => []
    | some (frames, buf) => frames ++ received buf chunks

/-- The bytes that the other side writes. -/
def stream (frames : List Frame) : List UInt8 := Utf8.encode (frames.flatMap encodeFrame)

/-- Each chunk has whole characters, and no line grows past the limit without an end. -/
def Whole : List Char → List (List UInt8) → Prop
  | _, [] => True
  | line, chunk :: chunks => ∃ text, chunk = Utf8.encode text ∧
      ('\n' ∈ line ++ text ∨ (Utf16.encode (line ++ text)).length ≤ MAX_FRAME_BYTES) ∧
      Whole (((line ++ text).splitOn '\n').getLastD []) chunks

theorem open_cases (text : List Char) : '\n' ∉ text ∨ ∃ before line, text = before ++ '\n' :: line ∧ '\n' ∉ line := by
  have hall : completePart '\n' text ++ heldPart '\n' text = text := complete_append_held text
  have hline : '\n' ∉ heldPart '\n' text := not_mem_heldPart text
  have hclosed : Closed '\n' (completePart '\n' text) := closed_completePart text
  rcases closed_cases hclosed with hnone | ⟨before, hbefore⟩
  · rw [hnone, nil_append] at hall
    exact .inl (hall ▸ hline)
  · rw [hbefore, append_assoc] at hall
    exact .inr ⟨before, _, hall.symm, hline⟩

/-- Of a text that goes on, the ended lines stay and the open one is gone on with. -/
theorem splitOn_later (text rest : List Char) : '\n' ∉ (text.splitOn '\n').getLastD [] ∧
    ((text ++ rest).splitOn '\n').dropLast =
      (text.splitOn '\n').dropLast ++ (((text.splitOn '\n').getLastD [] ++ rest).splitOn '\n').dropLast := by
  rcases open_cases text with hnone | ⟨before, line, rfl, hline⟩
  · rw [splitOn_eq_singleton hnone]
    exact ⟨hnone, rfl⟩
  · rw [append_assoc, cons_append, splitOn_append_cons_self, splitOn_append_cons_self, splitOn_eq_singleton hline,
      dropLast_append_of_ne_nil (splitOn_ne_nil '\n' _), dropLast_concat, getLastD_concat]
    exact ⟨hline, rfl⟩

theorem received_eq {line : List Char} {chunks : List (List UInt8)} (hline : '\n' ∉ line) (h : Whole line chunks) :
    received line chunks = ((line ++ chunks.flatMap Utf8.decode).splitOn '\n').dropLast.filterMap parseFrame := by
  induction chunks generalizing line with
  | nil => rw [flatMap_nil, append_nil, splitOn_eq_singleton hline]; rfl
  | cons chunk chunks ih =>
    obtain ⟨text, rfl, hfits, hrest⟩ := h
    obtain ⟨hopen, hlater⟩ := splitOn_later (line ++ text) (chunks.flatMap Utf8.decode)
    have hroom : ¬(MAX_FRAME_BYTES < (Utf16.encode (line ++ text)).length ∧ '\n' ∉ line ++ text) := by
      rintro ⟨hlong, hnone⟩
      exact hfits.elim hnone (Nat.not_le.mpr hlong)
    rw [flatMap_cons, Utf8.decode_encode, ← append_assoc, hlater, filterMap_append, ← ih hopen hrest, received,
      Utf8.decode_encode, push, if_neg hroom]

theorem parseFrame_chars (frame : Frame) : parseFrame (Json.chars (.obj frame)) = some (.obj frame) := by
  unfold parseFrame
  simp only [trim_chars, Json.parse_stringify]
  exact if_neg (stringify_ne_nil frame)

theorem lines_of_frames (frames : List Frame) :
    ((frames.flatMap encodeFrame).splitOn '\n').dropLast = frames.map fun frame => Json.chars (.obj frame) := by
  induction frames with
  | nil => rfl
  | cons frame frames ih =>
    rw [flatMap_cons, encodeFrame, append_assoc, singleton_append, splitOn_append_cons_self,
      splitOn_eq_singleton (Json.newline_notMem_chars _), singleton_append, dropLast_cons_of_ne_nil (splitOn_ne_nil '\n' _), ih]
    rfl

theorem frames_received (frames : List Frame) (chunks : List (List UInt8)) (hcut : chunks.flatten = stream frames)
    (h : Whole [] chunks) : received [] chunks = frames.map Json.obj := by
  have htext : ∀ line, Whole line chunks → Utf8.encode (chunks.flatMap Utf8.decode) = chunks.flatten := by
    clear hcut h
    induction chunks with
    | nil => exact fun _ _ => rfl
    | cons chunk chunks ih =>
      rintro line ⟨text, rfl, -, hrest⟩
      rw [flatMap_cons, Utf8.encode_append, Utf8.decode_encode, ih _ hrest]
      rfl
  have hsame : chunks.flatMap Utf8.decode = frames.flatMap encodeFrame := by
    have hbytes := congrArg Utf8.decode ((htext [] h).trans hcut)
    rwa [stream, Utf8.decode_encode, Utf8.decode_encode] at hbytes
  rw [received_eq not_mem_nil h, nil_append, hsame, lines_of_frames, filterMap_map]
  simp [parseFrame_chars]

/-- A frame in two chunks, with an é before the cut. -/
theorem frames_received_cut : received [] [Utf8.encode "\x7b\"é".toList, Utf8.encode "\":\"\"\x7d\n".toList] =
    [.obj [([0xE9], .str [])]] :=
  frames_received [[([0xE9], .str [])]] _ (by decide +kernel)
    ⟨_, rfl, .inr (by decide), _, rfl, .inl (by decide), trivial⟩

/-- A chunk ends between the two bytes of an é. -/
theorem frames_received_counterexample : ∃ frames chunks, chunks.flatten = stream frames ∧
    received [] chunks ≠ frames.map Json.obj := by
  refine ⟨[[([], .str [0xE9])]], [(stream [[([], .str [0xE9])]]).take 6, (stream [[([], .str [0xE9])]]).drop 6], by simp, fun h => ?_⟩
  have htexts := congrArg (List.map Json.stringify) h
  revert htexts
  decide +kernel

end NodeTerm.SessionHost.Framing
