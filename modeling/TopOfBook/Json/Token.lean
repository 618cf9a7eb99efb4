import TopOfBook.Json.Literal

/-! The tokens of a JSON text. `Token.scan` splits a text into tokens, skipping blanks;
`Token.text` writes one. -/

namespace TopOfBook.Json

inductive Token
  | openArray
  | closeArray
  | openObject
  | closeObject
  | comma
  | colon
  | null
  | bool (value : Bool)
  | number (literal : Literal)
  | string (text : Option String)
deriving Repr

/-- The blanks of JSON, which are four. -/
def isBlank (c : Char) : Bool := c == ' ' || c == '\n' || c == '\r' || c == '\t'

/-! ### Strings -/

/-- What one character or escape of a string contributes: a character or half of a pair. -/
inductive Piece
  | scalar (c : Char)
  | high (bits : Nat)
  | low (bits : Nat)
deriving Repr

def Piece.ofCode (code : Nat) : Piece :=
  if 0xD800 ≤ code && code < 0xDC00 then .high (code - 0xD800)
  else if 0xDC00 ≤ code && code < 0xE000 then .low (code - 0xDC00)
  else .scalar (Char.ofNat code)

/-- Joins each high half with the low half right behind it; any other half spoils the text. -/
def Piece.join : List Piece → Option (List Char)
  | [] => some []
  | .scalar c :: rest => (join rest).map (c :: ·)
  | .high h :: .low l :: rest =>
    (join rest).map (Char.ofNat (0x10000 + 0x400 * h + l) :: ·)
  | _ => none

def hexValue? (c : Char) : Option Nat :=
  let n := c.toNat
  if 48 ≤ n && n < 58 then some (n - 48)
  else if 97 ≤ n && n < 103 then some (n - 87)
  else if 65 ≤ n && n < 71 then some (n - 55)
  else none

def hexCode? (a b c d : Char) : Option Nat := do
  let a ← hexValue? a
  let b ← hexValue? b
  let c ← hexValue? c
  let d ← hexValue? d
  some (((a * 16 + b) * 16 + c) * 16 + d)

/-- The character behind a backslash, other than `u`. -/
def unescape? : Char → Option Char
  | '"' => some '"'
  | '\\' => some '\\'
  | '/' => some '/'
  | 'b' => some '\x08'
  | 'f' => some '\x0c'
  | 'n' => some '\n'
  | 'r' => some '\r'
  | 't' => some '\t'
  | _ => none

/-- Reads up to the closing quote. Control characters must be escaped. -/
def scanString : List Char → Option (List Piece × List Char)
  | [] => none
  | '"' :: rest => some ([], rest)
  | '\\' :: 'u' :: a :: b :: c :: d :: rest =>
    match hexCode? a b c d, scanString rest with
    | some code, some (pieces, rest) => some (Piece.ofCode code :: pieces, rest)
    | _, _ => none
  | '\\' :: c :: rest =>
    match unescape? c, scanString rest with
    | some e, some (pieces, rest) => some (.scalar e :: pieces, rest)
    | _, _ => none
  | c :: rest =>
    if c.toNat < 0x20 then none
    else match scanString rest with
      | some (pieces, rest) => some (.scalar c :: pieces, rest)
      | none => none

theorem scanString_length {cs : List Char} {pieces : List Piece} {rest : List Char}
    (h : scanString cs = some (pieces, rest)) : rest.length < cs.length := by
  fun_induction scanString cs generalizing pieces rest with
  | case1 => simp at h
  | case2 r => simp at h; simp [← h.2]
  | case3 _ _ _ _ _ _ _ _ hr _ ih =>
    have := ih hr
    simp only [Option.some.injEq, Prod.mk.injEq] at h
    rw [← h.2]; simp only [List.length_cons]; omega
  | case4 => simp at h
  | case5 _ _ _ _ _ _ hr _ ih =>
    have := ih hr
    simp only [Option.some.injEq, Prod.mk.injEq] at h
    rw [← h.2]; simp only [List.length_cons]; omega
  | case6 => simp at h
  | case7 => simp at h
  | case8 _ _ _ _ _ _ _ _ hr ih =>
    have := ih hr
    simp only [Option.some.injEq, Prod.mk.injEq] at h
    rw [← h.2]; simp only [List.length_cons]; omega
  | case9 => simp at h

/-! ### Numbers -/

/-- The digits at the front, and the rest. -/
def spanDigits : List Char → List Digit × List Char
  | [] => ([], [])
  | c :: rest =>
    match Digit.ofChar? c with
    | some d => (d :: (spanDigits rest).1, (spanDigits rest).2)
    | none => ([], c :: rest)

theorem spanDigits_length (cs : List Char) : (spanDigits cs).2.length ≤ cs.length := by
  fun_induction spanDigits cs with
  | case1 => simp
  | case2 c r d _ ih => simp; omega
  | case3 => simp

/-- At least one digit. -/
def scanDigits (cs : List Char) : Option (List Digit × List Char) :=
  match spanDigits cs with
  | ([], _) => none
  | (digits, rest) => some (digits, rest)

theorem scanDigits_length {cs : List Char} {ds : List Digit} {rest : List Char}
    (h : scanDigits cs = some (ds, rest)) : rest.length < cs.length := by
  match cs with
  | [] => simp [scanDigits, spanDigits] at h
  | c :: r =>
    have := spanDigits_length r
    rw [scanDigits, spanDigits] at h
    cases hd : Digit.ofChar? c with
    | none => simp [hd] at h
    | some d => simp [hd] at h; simp [← h.2]; omega

/-- A zero alone, or digits that do not start with a zero. -/
def scanWhole : List Char → Option (List Digit × List Char)
  | '0' :: rest => some ([.zero], rest)
  | cs => scanDigits cs

theorem scanWhole_length {cs : List Char} {ds : List Digit} {rest : List Char}
    (h : scanWhole cs = some (ds, rest)) : rest.length < cs.length := by
  unfold scanWhole at h
  split at h
  · simp at h; simp [← h.2]
  · exact scanDigits_length h

def scanFraction : List Char → Option (List Digit × List Char)
  | '.' :: rest => scanDigits rest
  | cs => some ([], cs)

theorem scanFraction_length {cs : List Char} {ds : List Digit} {rest : List Char}
    (h : scanFraction cs = some (ds, rest)) : rest.length ≤ cs.length := by
  unfold scanFraction at h
  split at h
  · have := scanDigits_length h; simp; omega
  · simp at h; simp [← h.2]

/-- The sign of an exponent: a minus, a plus, or nothing. -/
def scanSign : List Char → Bool × List Char
  | '-' :: rest => (true, rest)
  | '+' :: rest => (false, rest)
  | cs => (false, cs)

theorem scanSign_length (cs : List Char) : (scanSign cs).2.length ≤ cs.length := by
  unfold scanSign; split <;> simp

def scanExponent : List Char → Option (Option Exponent × List Char)
  | [] => some (none, [])
  | c :: rest =>
    if c = 'e' ∨ c = 'E' then
      (scanDigits (scanSign rest).2).map fun (digits, after) =>
        (some ⟨(scanSign rest).1, digits⟩, after)
    else some (none, c :: rest)

theorem scanExponent_length {cs : List Char} {e : Option Exponent} {rest : List Char}
    (h : scanExponent cs = some (e, rest)) : rest.length ≤ cs.length := by
  unfold scanExponent at h
  split at h
  · simp at h; simp [← h.2]
  · next c r =>
    split at h
    · obtain ⟨⟨ds, r'⟩, hd, he⟩ := Option.map_eq_some_iff.1 h
      have h1 := scanDigits_length hd
      have h2 := scanSign_length r
      simp only [Prod.mk.injEq] at he
      rw [← he.2]; simp only [List.length_cons]; omega
    · simp at h; simp [← h.2]

/-- A literal without its sign. -/
def scanUnsigned (negative : Bool) (cs : List Char) : Option (Literal × List Char) := do
  let (whole, cs) ← scanWhole cs
  let (fraction, cs) ← scanFraction cs
  let (exponent, cs) ← scanExponent cs
  some (⟨negative, whole, fraction, exponent⟩, cs)

theorem scanUnsigned_length {negative : Bool} {cs : List Char} {l : Literal} {rest : List Char}
    (h : scanUnsigned negative cs = some (l, rest)) : rest.length < cs.length := by
  simp only [scanUnsigned, Option.bind_eq_bind, Option.bind_eq_some_iff, Prod.exists] at h
  obtain ⟨_, _, h1, _, _, h2, _, _, h3, h4⟩ := h
  have := scanWhole_length h1
  have := scanFraction_length h2
  have := scanExponent_length h3
  simp at h4; simp [← h4.2]; omega

/-! ### Tokens -/

/-- The token at the front of a text that does not begin with a blank. -/
def scanToken : List Char → Option (Token × List Char)
  | '[' :: rest => some (.openArray, rest)
  | ']' :: rest => some (.closeArray, rest)
  | '{' :: rest => some (.openObject, rest)
  | '}' :: rest => some (.closeObject, rest)
  | ',' :: rest => some (.comma, rest)
  | ':' :: rest => some (.colon, rest)
  | 'n' :: 'u' :: 'l' :: 'l' :: rest => some (.null, rest)
  | 't' :: 'r' :: 'u' :: 'e' :: rest => some (.bool true, rest)
  | 'f' :: 'a' :: 'l' :: 's' :: 'e' :: rest => some (.bool false, rest)
  | '"' :: rest => (scanString rest).map fun (pieces, rest) =>
      (.string ((Piece.join pieces).map String.ofList), rest)
  | '-' :: rest => (scanUnsigned true rest).map fun (l, rest) => (.number l, rest)
  | cs => (scanUnsigned false cs).map fun (l, rest) => (.number l, rest)

theorem scanToken_length {cs : List Char} {t : Token} {rest : List Char}
    (h : scanToken cs = some (t, rest)) : rest.length < cs.length := by
  unfold scanToken at h
  split at h
  case h_10 r =>
    obtain ⟨⟨ps, r'⟩, hs, he⟩ := Option.map_eq_some_iff.1 h
    have := scanString_length hs
    simp at he; simp [← he.2]; omega
  case h_11 r =>
    obtain ⟨⟨l, r'⟩, hs, he⟩ := Option.map_eq_some_iff.1 h
    have := scanUnsigned_length hs
    simp at he; simp [← he.2]; omega
  case h_12 =>
    obtain ⟨⟨l, r'⟩, hs, he⟩ := Option.map_eq_some_iff.1 h
    have := scanUnsigned_length hs
    simp at he; simpa [← he.2] using this
  all_goals simp at h; simp [← h.2]; try omega

/-- All tokens of a text, in order. -/
def Token.scan : List Char → Option (List Token)
  | [] => some []
  | c :: rest =>
    if isBlank c then Token.scan rest
    else match _h : scanToken (c :: rest) with
      | none => none
      | some (t, rest') => (Token.scan rest').map (t :: ·)
termination_by cs => cs.length
decreasing_by
  · simp
  · exact scanToken_length ‹_›

/-! ### Writing -/

def hexDigit (n : Nat) : Char := if n < 10 then Char.ofNat (48 + n) else Char.ofNat (87 + n)

/-- Quotes, backslashes and control characters are escaped, the latter by a letter where there
is one and by their code where there is none; every other character stands for itself. -/
def escape (c : Char) : List Char :=
  if c = '"' then ['\\', '"']
  else if c = '\\' then ['\\', '\\']
  else if c = '\x08' then ['\\', 'b']
  else if c = '\x0c' then ['\\', 'f']
  else if c = '\n' then ['\\', 'n']
  else if c = '\r' then ['\\', 'r']
  else if c = '\t' then ['\\', 't']
  else if c.toNat < 0x20 then
    ['\\', 'u', '0', '0', hexDigit (c.toNat / 16), hexDigit (c.toNat % 16)]
  else [c]

/-- A string without a text cannot be written; `null` stands in for it. -/
def Token.text : Token → List Char
  | .openArray => ['[']
  | .closeArray => [']']
  | .openObject => ['\x7b']
  | .closeObject => ['\x7d']
  | .comma => [',']
  | .colon => [':']
  | .null => ['n', 'u', 'l', 'l']
  | .bool true => ['t', 'r', 'u', 'e']
  | .bool false => ['f', 'a', 'l', 's', 'e']
  | .number l => l.text
  | .string none => ['n', 'u', 'l', 'l']
  | .string (some s) => '"' :: (s.toList.flatMap escape ++ ['"'])

end TopOfBook.Json
