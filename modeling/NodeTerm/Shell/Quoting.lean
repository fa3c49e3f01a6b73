import NodeTerm.Board.Entry

/-! The quoting of arguments for a shell, the splitter that takes a line of them apart, and the shell's own reading of
such a line. -/
namespace NodeTerm.Shell
open Board List Option

/-- The quotes that the next character stands in. -/
inductive Mode
  | bare
  | single
  | double

def shellSingleQuote (s : Units) : Units :=
  0x27 :: s.flatMap (fun c => if c = 0x27 then [0x27, 0x5C, 0x27, 0x27] else [c]) ++ [0x27]

/-- The class of `SAFE_BARE_TOKEN`. -/
def isSafeBare (c : UInt16) : Bool :=
  0x30 ≤ c && c ≤ 0x39 || 0x41 ≤ c && c ≤ 0x5A || 0x61 ≤ c && c ≤ 0x7A ||
    [0x5F, 0x40, 0x25, 0x2B, 0x3D, 0x3A, 0x2C, 0x2E, 0x5E, 0x2F, 0x2D].contains c

def shellQuoteIfNeeded (s : Units) : Units := if s ≠ [] && s.all isSafeBare then s else shellSingleQuote s

/-- The class `\s`. -/
def isWhitespace (c : UInt16) : Bool :=
  0x09 ≤ c && c ≤ 0x0D || 0x2000 ≤ c && c ≤ 0x200A ||
    [0x20, 0xA0, 0x1680, 0x2028, 0x2029, 0x202F, 0x205F, 0x3000, 0xFEFF].contains c

def push (buf : Units) (hasToken : Bool) : List Units := if hasToken then [buf] else []

/-- The loop of `shellSplit`, from a place in the input on. A backslash at the end stands for itself. -/
def splitFrom (mode : Mode) (buf : Units) (hasToken : Bool) : Units → List Units
  | [] => push buf hasToken
  | c :: rest =>
    match mode with
    | .single =>
      if c = 0x27 then splitFrom .bare buf hasToken rest else splitFrom .single (buf ++ [c]) hasToken rest
    | .double =>
      if c = 0x5C then
        match rest with
        | [] => push (buf ++ [c]) hasToken
        | d :: rest => splitFrom .double (buf ++ [d]) hasToken rest
      else if c = 0x22 then splitFrom .bare buf hasToken rest
      else splitFrom .double (buf ++ [c]) hasToken rest
    | .bare =>
      if c = 0x5C then
        match rest with
        | [] => push (buf ++ [c]) true
        | d :: rest => splitFrom .bare (buf ++ [d]) true rest
      else if c = 0x27 then splitFrom .single buf true rest
      else if c = 0x22 then splitFrom .double buf true rest
      else if isWhitespace c then push buf hasToken ++ splitFrom .bare [] false rest
      else splitFrom .bare (buf ++ [c]) true rest

def shellSplit (input : Units) : List Units := splitFrom .bare [] false input

/-! ### The shell -/

def isBlank (c : UInt16) : Bool := c = 0x20 || c = 0x09

/-- Is the unquoted character an operator, a newline, the start of an expansion or, where a word may start, that of a
comment? -/
def isSpecial (word : Option Units) (c : UInt16) : Bool :=
  [0x0A, 0x7C, 0x26, 0x3B, 0x3C, 0x3E, 0x28, 0x29, 0x24, 0x60, 0x2A, 0x3F, 0x5B, 0x7E].contains c ||
    c = 0x23 && word.isNone

/-- What a backslash escapes in double quotes, apart from a newline. -/
def isEscapable (c : UInt16) : Bool := [0x24, 0x60, 0x22, 0x5C].contains c

def extend (word : Option Units) (more : Units) : Option Units := some (word.getD [] ++ more)

/-- The words of a line for a POSIX shell after the removal of the quotes, from a place in the line on, where `word` is
what there is of a word. `none` where the quotes are not balanced or the line has more than words. -/
def fieldsFrom (mode : Mode) (word : Option Units) : Units → Option (List Units)
  | [] =>
    match mode with
    | .bare => some word.toList
    | _ => none
  | c :: rest =>
    match mode with
    | .single => if c = 0x27 then fieldsFrom .bare word rest else fieldsFrom .single (extend word [c]) rest
    | .double =>
      if c = 0x24 || c = 0x60 then none
      else if c = 0x5C then
        match rest with
        | [] => none
        | d :: rest =>
          if d = 0x0A then fieldsFrom .double word rest
          else fieldsFrom .double (extend word (if isEscapable d then [d] else [c, d])) rest
      else if c = 0x22 then fieldsFrom .bare word rest
      else fieldsFrom .double (extend word [c]) rest
    | .bare =>
      if c = 0x5C then
        match rest with
        | [] => some [word.getD [] ++ [c]]
        | d :: rest => fieldsFrom .bare (if d = 0x0A then word else extend word [d]) rest
      else if c = 0x27 then fieldsFrom .single (extend word []) rest
      else if c = 0x22 then fieldsFrom .double (extend word []) rest
      else if isBlank c then (fieldsFrom .bare none rest).map (word.toList ++ ·)
      else if isSpecial word c then none
      else fieldsFrom .bare (extend word [c]) rest

def shellFields (line : Units) : Option (List Units) := fieldsFrom .bare none line

/-- Where the splitter and a shell differ: a newline after a backslash, a backslash that double quotes keep, and a white
space that is no blank. -/
inductive Quirk
  | continuation
  | backslash
  | space
  deriving DecidableEq

def quirksFrom (mode : Mode) : Units → List Quirk
  | [] => []
  | c :: rest =>
    match mode with
    | .single => quirksFrom (if c = 0x27 then .bare else .single) rest
    | .double =>
      if c = 0x5C then
        match rest with
        | [] => []
        | d :: rest =>
          (if d = 0x0A then [.continuation] else if isEscapable d then [] else [.backslash]) ++ quirksFrom .double rest
      else quirksFrom (if c = 0x22 then .bare else .double) rest
    | .bare =>
      if c = 0x5C then
        match rest with
        | [] => []
        | d :: rest => (if d = 0x0A then [.continuation] else []) ++ quirksFrom .bare rest
      else if c = 0x27 then quirksFrom .single rest
      else if c = 0x22 then quirksFrom .double rest
      else (if isWhitespace c && !isBlank c then [.space] else []) ++ quirksFrom .bare rest

def quirks (line : Units) : List Quirk := quirksFrom .bare line

section Unfolding
variable {mode : Mode} {buf : Units} {hasToken : Bool} {word : Option Units} {c : UInt16} (rest : Units) (h : ¬c = 0x5C)
include h

@[simp] theorem splitFrom_double : splitFrom .double buf hasToken (c :: rest) =
    if c = 0x22 then splitFrom .bare buf hasToken rest else splitFrom .double (buf ++ [c]) hasToken rest := by
  rw [splitFrom.eq_def]
  exact if_neg h

@[simp] theorem splitFrom_bare : splitFrom .bare buf hasToken (c :: rest) =
    if c = 0x27 then splitFrom .single buf true rest
    else if c = 0x22 then splitFrom .double buf true rest
    else if isWhitespace c then push buf hasToken ++ splitFrom .bare [] false rest
    else splitFrom .bare (buf ++ [c]) true rest := by
  rw [splitFrom.eq_def]
  exact if_neg h

@[simp] theorem fieldsFrom_bare : fieldsFrom .bare word (c :: rest) =
    if c = 0x27 then fieldsFrom .single (extend word []) rest
    else if c = 0x22 then fieldsFrom .double (extend word []) rest
    else if isBlank c then (fieldsFrom .bare none rest).map (word.toList ++ ·)
    else if isSpecial word c then none
    else fieldsFrom .bare (extend word [c]) rest := by
  rw [fieldsFrom.eq_def]
  exact if_neg h

@[simp] theorem quirksFrom_double : quirksFrom .double (c :: rest) = quirksFrom (if c = 0x22 then .bare else .double) rest := by
  rw [quirksFrom.eq_def]
  exact if_neg h

@[simp] theorem quirksFrom_bare : quirksFrom .bare (c :: rest) =
    if c = 0x27 then quirksFrom .single rest
    else if c = 0x22 then quirksFrom .double rest
    else (if isWhitespace c && !isBlank c then [.space] else []) ++ quirksFrom .bare rest := by
  rw [quirksFrom.eq_def]
  exact if_neg h

end Unfolding

theorem isWhitespace_of_isBlank {c : UInt16} (h : isBlank c = true) : isWhitespace c = true := by
  simp only [isBlank, Bool.or_eq_true, decide_eq_true_eq] at h
  rcases h with rfl | rfl <;> decide

@[simp] theorem getD_extend (word : Option Units) (more : Units) : (extend word more).getD [] = word.getD [] ++ more := rfl

@[simp] theorem isSome_extend (word : Option Units) (more : Units) : (extend word more).isSome = true := rfl

@[simp] theorem push_getD (word : Option Units) : push (word.getD []) word.isSome = word.toList := by
  cases word <;> rfl

theorem splitFrom_eq {mode : Mode} {word : Option Units} {line : Units} {fields : List Units} (h : fieldsFrom mode word line = some fields)
    (hq : quirksFrom mode line = []) (hw : mode = .bare ∨ word.isSome) :
    splitFrom mode (word.getD []) word.isSome line = fields := by
  fun_induction fieldsFrom mode word line generalizing fields
  case case15 word c rest h1 h2 h3 hb ih =>
    have hspace := isWhitespace_of_isBlank hb
    obtain ⟨more, hmore, rfl⟩ := map_eq_some_iff.mp h
    simp only [quirksFrom_bare _ h1, h2, h3, hb, if_false, Bool.not_true, Bool.and_false, nil_append, Bool.false_eq_true] at hq
    have hrest : splitFrom .bare [] false rest = more := ih hmore hq (.inl rfl)
    simp [h1, h2, h3, hspace, hrest]
  case case11 => simpa [splitFrom, push] using h
  all_goals simp_all [splitFrom, quirksFrom]

theorem flatten_push {buf : Units} {hasToken : Bool} (hbuf : hasToken = true ∨ buf = []) :
    (push buf hasToken).flatten = buf := by
  unfold push
  split
  · exact append_nil buf
  · next hnone => exact (hbuf.resolve_left hnone).symm

/-- What the quirks cost: the splitter has a newline more for each continuation, and a shell another character more for
each of the others. -/
theorem count_split {mode : Mode} {word : Option Units} {line : Units} {fields : List Units} {buf : Units} {hasToken : Bool}
    (h : fieldsFrom mode word line = some fields) (hbuf : hasToken = true ∨ mode = .bare ∧ buf = []) :
    (splitFrom mode buf hasToken line).flatten.count 0x0A + (word.getD []).count 0x0A =
        fields.flatten.count 0x0A + buf.count 0x0A + (quirksFrom mode line).count .continuation ∧
      (splitFrom mode buf hasToken line).flatten.countP (· ≠ 0x0A) + (word.getD []).countP (· ≠ 0x0A) +
          (quirksFrom mode line).countP (· ≠ .continuation) =
        fields.flatten.countP (· ≠ 0x0A) + buf.countP (· ≠ 0x0A) := by
  fun_induction fieldsFrom mode word line generalizing fields buf hasToken
  case case1 word =>
    cases h
    rw [splitFrom, flatten_push (hbuf.imp_right And.right)]
    cases word <;> simp [quirksFrom, Nat.add_comm]
  case case3 word rest ih => simpa [splitFrom, quirksFrom] using ih h (hbuf.imp_right fun hm => by cases hm.1)
  case case4 word c rest hc ih =>
    have htoken : hasToken = true := hbuf.resolve_right fun hm => by cases hm.1
    have hrest := @ih fields (buf ++ [c]) hasToken h (.inl htoken)
    simp only [getD_extend, count_append, countP_append] at hrest
    simp only [splitFrom, quirksFrom, hc, if_false]
    omega
  case case7 word rest hc ih =>
    have htoken : hasToken = true := hbuf.resolve_right fun hm => by cases hm.1
    have hrest := @ih fields (buf ++ [0x0A]) hasToken h (.inl htoken)
    simp [splitFrom, quirksFrom] at hrest ⊢
    omega
  case case8 word d rest hd hc ih =>
    have htoken : hasToken = true := hbuf.resolve_right fun hm => by cases hm.1
    have hrest := @ih fields (buf ++ [d]) hasToken h (.inl htoken)
    by_cases hescape : isEscapable d = true
    · simp [splitFrom, quirksFrom, hescape, hd] at hrest ⊢
      omega
    · simp [splitFrom, quirksFrom, hescape, hd] at hrest ⊢
      omega
  case case9 word rest hc hne ih =>
    have hrest := @ih fields buf hasToken h (hbuf.imp_right fun hm => by cases hm.1)
    simpa using hrest
  case case10 word c rest hc hslash hquote ih =>
    have htoken : hasToken = true := hbuf.resolve_right fun hm => by cases hm.1
    have hrest := @ih fields (buf ++ [c]) hasToken h (.inl htoken)
    simp only [getD_extend, count_append, countP_append] at hrest
    simp only [splitFrom_double _ hslash, quirksFrom_double _ hslash, hquote, if_false]
    omega
  case case11 word =>
    cases h
    simp [splitFrom, quirksFrom, push]
    omega
  case case12 word d rest ih =>
    have hrest := @ih fields (buf ++ [d]) true h (.inl rfl)
    by_cases hd : d = 0x0A
    · subst hd
      simp [splitFrom, quirksFrom] at hrest ⊢
      omega
    · simp [splitFrom, quirksFrom, hd] at hrest ⊢
      omega
  case case13 word rest hc ih =>
    have hrest := @ih fields buf true h (.inl rfl)
    simpa using hrest
  case case14 word rest hc hquote ih =>
    have hrest := @ih fields buf true h (.inl rfl)
    simpa using hrest
  case case15 word c rest hslash hsingle hdouble hblank ih =>
    obtain ⟨more, hmore, rfl⟩ := map_eq_some_iff.mp h
    have hrest := @ih more [] false hmore (.inr ⟨rfl, rfl⟩)
    have hspace := isWhitespace_of_isBlank hblank
    have hpush := flatten_push (hbuf.imp_right And.right)
    cases word <;> simp [hslash, hsingle, hdouble, hblank, hspace, hpush] at hrest ⊢ <;> omega
  case case17 word c rest hslash hsingle hdouble hblank hspecial ih =>
    have hline : c ≠ 0x0A := by
      rintro rfl
      exact hspecial rfl
    have hpush := flatten_push (hbuf.imp_right And.right)
    by_cases hspace : isWhitespace c = true
    · have hrest := @ih fields [] false h (.inr ⟨rfl, rfl⟩)
      simp [hslash, hsingle, hdouble, hblank, hspace, hpush, hline] at hrest ⊢
      omega
    · have hrest := @ih fields (buf ++ [c]) true h (.inl rfl)
      simp [hslash, hsingle, hdouble, hspace, hline] at hrest ⊢
      omega
  all_goals cases h

/-- The splitter takes a line that is words for a shell apart as the shell does exactly when the line has no quirk. -/
theorem shellSplit_eq_shellFields_iff (line : Units) (fields : List Units) (h : shellFields line = some fields) :
    shellSplit line = fields ↔ quirks line = [] := by
  constructor
  · intro heq
    have hcount := @count_split .bare none line fields [] false h (.inr ⟨rfl, rfl⟩)
    change (shellSplit line).flatten.count _ + _ = _ ∧ (shellSplit line).flatten.countP _ + _ + _ = _ at hcount
    simp only [heq, getD_none, count_nil, countP_nil] at hcount
    obtain ⟨hcontinued, hothers⟩ := hcount
    have hnone : (quirksFrom .bare line).count .continuation = 0 := by omega
    have hrest : (quirksFrom .bare line).countP (· ≠ .continuation) = 0 := by omega
    refine eq_nil_iff_forall_not_mem.mpr fun q hq => ?_
    by_cases hcont : q = .continuation
    · exact count_eq_zero.mp hnone (hcont ▸ hq)
    · exact countP_eq_zero.mp hrest q hq (decide_eq_true hcont)
  · intro hq
    exact splitFrom_eq h hq (.inl rfl)

/-- The line `"a b" c\ d 'e'`. -/
theorem shellSplit_eq_shellFields_iff_line :
    shellSplit [0x22, 0x61, 0x20, 0x62, 0x22, 0x20, 0x63, 0x5C, 0x20, 0x64, 0x20, 0x27, 0x65, 0x27] =
      [[0x61, 0x20, 0x62], [0x63, 0x20, 0x64], [0x65]] :=
  (shellSplit_eq_shellFields_iff _ _ rfl).mpr rfl

/-- The line `"\a"`: a shell keeps the backslash. -/
theorem shellSplit_backslash_counterexample :
    shellFields [0x22, 0x5C, 0x61, 0x22] = some [[0x5C, 0x61]] ∧ shellSplit [0x22, 0x5C, 0x61, 0x22] = [[0x61]] := by decide

/-! ### Quoted words -/

theorem word_of_isSafeBare {c : UInt16} (word : Option Units) (h : isSafeBare c = true) :
    c ≠ 0x5C ∧ c ≠ 0x27 ∧ c ≠ 0x22 ∧ isWhitespace c = false ∧ isBlank c = false ∧ isSpecial word c = false := by
  simp [isSafeBare, isWhitespace, isBlank, isSpecial, UInt16.le_iff_toNat_le, ← UInt16.toNat_inj] at h ⊢
  have hcomment : c.toNat ≠ 35 := by omega
  simp only [hcomment, false_imp_iff, and_true]
  omega

/-- A word that a shell takes as it is continues the word that stands before it. -/
theorem fields_bare {s : Units} (hs : s.all isSafeBare = true) (word : Option Units) (rest : Units) (hne : s ≠ [] ∨ word.isSome) :
    fieldsFrom .bare word (s ++ rest) = fieldsFrom .bare (extend word s) rest ∧
      quirksFrom .bare (s ++ rest) = quirksFrom .bare rest := by
  induction s generalizing word with
  | nil =>
    obtain ⟨buf, rfl⟩ := isSome_iff_exists.mp (hne.resolve_left fun h => h rfl)
    simp [extend]
  | cons c s ih =>
    rw [all_cons, Bool.and_eq_true] at hs
    obtain ⟨hc, hs⟩ := hs
    obtain ⟨hslash, hsingle, hdouble, hspace, hblank, hspecial⟩ := word_of_isSafeBare word hc
    have hrest := ih hs (extend word [c]) (.inr rfl)
    simpa [hslash, hsingle, hdouble, hspace, hblank, hspecial, extend] using hrest

/-- What stands in single quotes stands for itself, with the quotes of `'\''` between. -/
theorem fields_single (s : Units) (word : Option Units) (rest : Units) :
    fieldsFrom .single word (s.flatMap (fun c => if c = 0x27 then [0x27, 0x5C, 0x27, 0x27] else [c]) ++ 0x27 :: rest) =
        fieldsFrom .bare (if s = [] then word else extend word s) rest ∧
      quirksFrom .single (s.flatMap (fun c => if c = 0x27 then [0x27, 0x5C, 0x27, 0x27] else [c]) ++ 0x27 :: rest) =
        quirksFrom .bare rest := by
  induction s generalizing word with
  | nil => simp [fieldsFrom, quirksFrom]
  | cons c s ih =>
    have hrest := ih (extend word [c])
    by_cases hc : c = 0x27
    · subst hc
      simp [fieldsFrom, quirksFrom, extend] at hrest ⊢
      split at hrest <;> simp_all
    · simp [fieldsFrom, quirksFrom, hc, extend] at hrest ⊢
      split at hrest <;> simp_all

/-- A quoted argument is one word for a shell, and the splitter differs on nothing in it. -/
theorem fields_shellQuoteIfNeeded (s rest : Units) :
    fieldsFrom .bare none (shellQuoteIfNeeded s ++ rest) = fieldsFrom .bare (some s) rest ∧
      quirksFrom .bare (shellQuoteIfNeeded s ++ rest) = quirksFrom .bare rest := by
  unfold shellQuoteIfNeeded
  split
  · next hs =>
    simp only [Bool.and_eq_true, decide_eq_true_eq] at hs
    exact fields_bare hs.2 none rest (.inl hs.1)
  · have hquoted := fields_single s (some []) rest
    simp [shellSingleQuote, extend] at hquoted ⊢
    split at hquoted <;> simp_all

theorem fields_line (args : List Units) : shellFields ([0x20].intercalate (args.map shellQuoteIfNeeded)) = some args ∧
      quirks ([0x20].intercalate (args.map shellQuoteIfNeeded)) = [] := by
  unfold shellFields quirks
  induction args with
  | nil => exact ⟨rfl, rfl⟩
  | cons s args ih =>
    cases args with
    | nil =>
      have hword := fields_shellQuoteIfNeeded s []
      simpa [List.intercalate, fieldsFrom, quirksFrom] using hword
    | cons t args =>
      have hword := fields_shellQuoteIfNeeded s (0x20 :: [0x20].intercalate ((t :: args).map shellQuoteIfNeeded))
      simp [List.intercalate, isBlank, isWhitespace] at hword ih ⊢
      simp [hword, ih]

/-- The splitter and a shell both read the arguments back from a line of them. -/
theorem shellSplit_quoted (args : List Units) : shellSplit ([0x20].intercalate (args.map shellQuoteIfNeeded)) = args ∧
      shellFields ([0x20].intercalate (args.map shellQuoteIfNeeded)) = some args := by
  obtain ⟨hfields, hquirks⟩ := fields_line args
  have hsplit := splitFrom_eq hfields hquirks (.inl rfl)
  exact ⟨hsplit, hfields⟩

end NodeTerm.Shell
