import Mathlib.Data.Fintype.Basic
import Mathlib.Data.List.Basic
import Mathlib.Tactic.FinCases
import TopOfBook.Json.Reader
import TopOfBook.Json.Writer

/-!
What is written in JSON reads back. A text spells some tokens when scanning it yields them,
whatever follows that cannot belong to a number; the spellings of the parts of a value compose,
in one line as over several. The reader's machine then rebuilds the value from its tokens.
-/

namespace TopOfBook.Json

/-! ### Digits -/

namespace Digit

theorem ofChar?_toChar : ∀ d : Digit, ofChar? d.toChar = some d := by decide

theorem isBlank_toChar : ∀ d : Digit, isBlank d.toChar = false := by decide

theorem value_append (front back : List Digit) (before : Nat) :
    value (front ++ back) before = value back (value front before) :=
  List.foldl_append

theorem value_ofNat (n : Nat) : value (ofNat n) 0 = n := by
  fun_induction ofNat n with
  | case1 n h => simp only [value, List.foldl_cons, List.foldl_nil]; omega
  | case2 n h ih =>
    rw [value_append, ih]
    simp only [value, List.foldl_cons, List.foldl_nil]
    omega

theorem ofNat_ne_nil (n : Nat) : ofNat n ≠ [] := by
  rw [ofNat]
  split_ifs <;> simp

theorem ofNat_zero : ofNat 0 = [zero] := by
  rw [ofNat, if_pos (by omega)]
  rfl

/-- No leading zero. -/
theorem exists_ofNat_eq_cons {n : Nat} (hn : n ≠ 0) : ∃ d ds, ofNat n = d :: ds ∧ d ≠ zero := by
  fun_induction ofNat n with
  | case1 n h =>
    refine ⟨_, [], rfl, fun hzero => hn ?_⟩
    have := congrArg Fin.val hzero
    simp only [zero] at this
    omega
  | case2 n h ih =>
    obtain ⟨d, ds, heq, hd⟩ := ih (by omega)
    exact ⟨d, ds ++ [_], by rw [heq, List.cons_append], hd⟩

end Digit

/-! ### Where a number ends -/

/-- The text cannot go on with a number that stands before it. -/
def EndsNumber : List Char → Prop
  | [] => True
  | c :: _ => Digit.ofChar? c = none ∧ c ≠ '.' ∧ c ≠ 'e' ∧ c ≠ 'E'

theorem EndsNumber.append {front back : List Char} (hfront : EndsNumber front)
    (hback : EndsNumber back) : EndsNumber (front ++ back) := by
  cases front with
  | nil => exact hback
  | cons c front => exact hfront

theorem EndsNumber.of_isBlank {c : Char} (h : isBlank c = true) (rest : List Char) :
    EndsNumber (c :: rest) := by
  simp only [isBlank, Bool.or_eq_true, beq_iff_eq] at h
  obtain ((rfl | rfl) | rfl) | rfl := h <;> exact ⟨rfl, by decide⟩

theorem spanDigits_append (digits : List Digit) {rest : List Char} (h : EndsNumber rest) :
    spanDigits (digits.map Digit.toChar ++ rest) = (digits, rest) := by
  induction digits with
  | nil =>
    cases rest with
    | nil => rfl
    | cons c rest => rw [List.map_nil, List.nil_append, spanDigits, h.1]
  | cons d digits ih =>
    rw [List.map_cons, List.cons_append, spanDigits, Digit.ofChar?_toChar, ih]

theorem scanWhole_ofNat (n : Nat) {rest : List Char} (h : EndsNumber rest) :
    scanWhole ((Digit.ofNat n).map Digit.toChar ++ rest) = some (Digit.ofNat n, rest) := by
  by_cases hn : n = 0
  · rw [hn, Digit.ofNat_zero]
    rfl
  obtain ⟨d, ds, heq, hd⟩ := Digit.exists_ofNat_eq_cons hn
  have hscan : scanWhole ((d :: ds).map Digit.toChar ++ rest) =
      scanDigits ((d :: ds).map Digit.toChar ++ rest) := by
    rw [List.map_cons, List.cons_append, scanWhole]
    intro _ heads
    have hzero := congrArg Digit.ofChar? (List.cons.inj heads).1
    rw [Digit.ofChar?_toChar] at hzero
    exact hd (Option.some.inj hzero)
  rw [heq, hscan, scanDigits, spanDigits_append _ h]

theorem scanFraction_of_endsNumber {rest : List Char} (h : EndsNumber rest) :
    scanFraction rest = some ([], rest) := by
  cases rest with
  | nil => rfl
  | cons c rest =>
    rw [scanFraction]
    rintro _ ⟨⟩
    exact h.2.1 rfl

theorem scanExponent_of_endsNumber {rest : List Char} (h : EndsNumber rest) :
    scanExponent rest = some (none, rest) := by
  cases rest with
  | nil => rfl
  | cons c rest =>
    rw [scanExponent, if_neg]
    rintro (rfl | rfl)
    · exact h.2.2.1 rfl
    · exact h.2.2.2 rfl

/-- An integer without leading zeros. -/
def Literal.integer (negative : Bool) (n : Nat) : Literal := ⟨negative, Digit.ofNat n, [], none⟩

theorem scanUnsigned_ofNat (negative : Bool) (n : Nat) {rest : List Char} (h : EndsNumber rest) :
    scanUnsigned negative ((Digit.ofNat n).map Digit.toChar ++ rest) =
      some (.integer negative n, rest) := by
  simp only [scanUnsigned, scanWhole_ofNat n h, scanFraction_of_endsNumber h,
    scanExponent_of_endsNumber h, Option.bind_eq_bind, Option.bind_some]
  rfl

theorem scanToken_digit (d : Digit) (rest : List Char) :
    scanToken (d.toChar :: rest) =
      (scanUnsigned false (d.toChar :: rest)).map fun r => (.number r.1, r.2) := by
  fin_cases d <;> rfl

/-! ### Strings -/

theorem hexValue?_hexDigit : ∀ n < 16, hexValue? (hexDigit n) = some n := by decide

/-- A piece in front of the pieces of the rest of a string. -/
def prepend (piece : Piece) (rest : Option (List Piece × List Char)) :
    Option (List Piece × List Char) :=
  rest.map fun r => (piece :: r.1, r.2)

theorem scanString_letter {letter c : Char} (h : unescape? letter = some c) (rest : List Char) :
    scanString ('\\' :: letter :: rest) = prepend (.scalar c) (scanString rest) := by
  have hu : letter ≠ 'u' := by
    rintro rfl
    cases h
  rw [scanString, h]
  · cases scanString rest <;> rfl
  · intro _ _ _ _ _ hletter
    exact absurd hletter hu

theorem scanString_control {c : Char} (h : c.toNat < 0x20) (rest : List Char) :
    scanString ('\\' :: 'u' :: '0' :: '0' :: hexDigit (c.toNat / 16) :: hexDigit (c.toNat % 16) ::
      rest) = prepend (.scalar c) (scanString rest) := by
  have hcode : hexCode? '0' '0' (hexDigit (c.toNat / 16)) (hexDigit (c.toNat % 16)) =
      some c.toNat := by
    have hhigh := hexValue?_hexDigit (c.toNat / 16) (by omega)
    have hlow := hexValue?_hexDigit (c.toNat % 16) (by omega)
    have hzero : hexValue? '0' = some 0 := rfl
    simp only [hexCode?, hzero, hhigh, hlow, Option.bind_eq_bind, Option.bind_some]
    rw [Option.some.injEq]
    omega
  have hpiece : Piece.ofCode c.toNat = .scalar c := by
    rw [Piece.ofCode, if_neg (by simp; omega), if_neg (by simp; omega), Char.ofNat_toNat]
  rw [scanString, hcode]
  cases scanString rest with
  | none => rfl
  | some r => rw [prepend, Option.map_some, ← hpiece]

theorem scanString_raw {c : Char} (hquote : c ≠ '"') (hslash : c ≠ '\\')
    (h : ¬ c.toNat < 0x20) (rest : List Char) :
    scanString (c :: rest) = prepend (.scalar c) (scanString rest) := by
  rw [scanString]
  · rw [if_neg h]
    cases scanString rest <;> rfl
  · exact hquote
  · exact fun _ _ _ _ _ heq _ => hslash heq
  · exact fun _ _ heq _ => hslash heq

/-- An escaped character reads back as that character. -/
theorem scanString_escape (c : Char) (rest : List Char) :
    scanString (escape c ++ rest) = prepend (.scalar c) (scanString rest) := by
  unfold escape
  split_ifs with hquote hslash hb hf hn hr ht hcontrol
  · subst hquote; exact scanString_letter rfl rest
  · subst hslash; exact scanString_letter rfl rest
  · subst hb; exact scanString_letter rfl rest
  · subst hf; exact scanString_letter rfl rest
  · subst hn; exact scanString_letter rfl rest
  · subst hr; exact scanString_letter rfl rest
  · subst ht; exact scanString_letter rfl rest
  · exact scanString_control hcontrol rest
  · exact scanString_raw hquote hslash hcontrol rest

theorem scanString_text (s : List Char) (rest : List Char) :
    scanString (s.flatMap escape ++ '"' :: rest) = some (s.map .scalar, rest) := by
  induction s with
  | nil => rfl
  | cons c s ih =>
    rw [List.flatMap_cons, List.append_assoc, scanString_escape, ih]
    rfl

theorem Piece.join_scalars (s : List Char) : Piece.join (s.map .scalar) = some s := by
  induction s with
  | nil => rfl
  | cons c s ih =>
    rw [List.map_cons, Piece.join, ih]
    rfl

/-! ### Spellings -/

theorem Token.scan_blank {c : Char} (h : isBlank c = true) (rest : List Char) :
    scan (c :: rest) = scan rest := by
  rw [scan, if_pos h]

theorem Token.scan_cons {c : Char} {rest after : List Char} {t : Token}
    (hblank : isBlank c = false) (h : scanToken (c :: rest) = some (t, after)) :
    scan (c :: rest) = (scan after).map (t :: ·) := by
  rw [scan, if_neg (by simp [hblank])]
  split
  · next hnone =>
    rw [h] at hnone
    cases hnone
  · next t' after' hsome =>
    rw [h] at hsome
    cases hsome
    rfl

/-- A character that is a token by itself. -/
structure IsSign (c : Char) (t : Token) : Prop where
  notBlank : isBlank c = false
  scan : ∀ rest, scanToken (c :: rest) = some (t, rest)
  endsNumber : EndsNumber [c]

namespace IsSign

theorem openArray : IsSign '[' .openArray := ⟨rfl, fun _ => rfl, rfl, by decide⟩

theorem closeArray : IsSign ']' .closeArray := ⟨rfl, fun _ => rfl, rfl, by decide⟩

theorem openObject : IsSign '\x7b' .openObject := ⟨rfl, fun _ => rfl, rfl, by decide⟩

theorem closeObject : IsSign '\x7d' .closeObject := ⟨rfl, fun _ => rfl, rfl, by decide⟩

theorem comma : IsSign ',' .comma := ⟨rfl, fun _ => rfl, rfl, by decide⟩

theorem colon : IsSign ':' .colon := ⟨rfl, fun _ => rfl, rfl, by decide⟩

end IsSign

/-- Scanning the text yields the tokens, whatever stands behind it, as long as that could not
be more digits. -/
def Spells (text : List Char) (ts : List Token) : Prop :=
  ∀ rest, EndsNumber rest → Token.scan (text ++ rest) = (Token.scan rest).map (ts ++ ·)

namespace Spells

theorem nil : Spells [] [] := fun rest _ => by
  cases h : Token.scan rest <;> simp [h]

theorem append {front back : List Char} {ts us : List Token} (hfront : Spells front ts)
    (hends : EndsNumber back) (hback : Spells back us) : Spells (front ++ back) (ts ++ us) := by
  intro rest hrest
  rw [List.append_assoc, hfront _ (hends.append hrest), hback _ hrest, Option.map_map]
  congr 1
  funext ws
  exact (List.append_assoc ts us ws).symm

theorem flatMap {α : Type} {text : α → List Char} {ts : α → List Token} {items : List α}
    (hends : ∀ a ∈ items, EndsNumber (text a)) (h : ∀ a ∈ items, Spells (text a) (ts a)) :
    EndsNumber (items.flatMap text) ∧ Spells (items.flatMap text) (items.flatMap ts) := by
  induction items with
  | nil => exact ⟨trivial, nil⟩
  | cons a items ih =>
    rw [List.forall_mem_cons] at hends h
    obtain ⟨hrest, hspells⟩ := ih hends.2 h.2
    exact ⟨hends.1.append hrest, h.1.append hrest hspells⟩

theorem blank {c : Char} (hc : isBlank c = true) {text : List Char} {ts : List Token}
    (h : Spells text ts) : Spells (c :: text) ts := by
  intro rest hrest
  rw [List.cons_append, Token.scan_blank hc, h rest hrest]

theorem blanks {gap : List Char} (hgap : ∀ c ∈ gap, isBlank c = true) {text : List Char}
    {ts : List Token} (h : Spells text ts) : Spells (gap ++ text) ts := by
  induction gap with
  | nil => exact h
  | cons c gap ih =>
    rw [List.forall_mem_cons] at hgap
    exact (ih hgap.2).blank hgap.1

theorem sign {c : Char} {t : Token} (hsign : IsSign c t) {text : List Char} {ts : List Token}
    (h : Spells text ts) : Spells (c :: text) (t :: ts) := by
  intro rest hrest
  rw [List.cons_append, Token.scan_cons hsign.notBlank (hsign.scan _), h rest hrest,
    Option.map_map]
  rfl

theorem string (s : String) : Spells (Token.string (some s)).text [.string (some s)] := by
  intro rest _
  have hscan : scanToken ((Token.string (some s)).text ++ rest) =
      some (.string (some s), rest) := by
    simp only [Token.text, List.cons_append, List.append_assoc, List.nil_append, scanToken,
      scanString_text, Piece.join_scalars, Option.map_some, String.ofList_toList]
  exact Token.scan_cons rfl hscan

theorem number (negative : Bool) (n : Nat) :
    Spells (Literal.integer negative n).text [.number (.integer negative n)] := by
  intro rest hrest
  have htext : (Literal.integer negative n).text ++ rest =
      (if negative then ['-'] else []) ++ ((Digit.ofNat n).map Digit.toChar ++ rest) := by
    cases negative <;> simp [Literal.integer, Literal.text]
  have hscan := scanUnsigned_ofNat negative n hrest
  rw [htext]
  cases negative with
  | true => exact Token.scan_cons rfl (congrArg (Option.map _) hscan)
  | false =>
    obtain ⟨d, ds, hdigits⟩ := List.exists_cons_of_ne_nil (Digit.ofNat_ne_nil n)
    rw [hdigits] at hscan ⊢
    exact Token.scan_cons (Digit.isBlank_toChar d)
      ((scanToken_digit d _).trans (congrArg (Option.map _) hscan))

/-- Parts between brackets, with commas between them and a gap before the last bracket. -/
theorem enclosed {α : Type} {text : α → List Char} {ts : α → List Token} {first : α}
    {items : List α} (h : ∀ a ∈ first :: items, Spells (text a) (ts a)) {o c : Char} {t u : Token}
    (hopen : IsSign o t) (hclose : IsSign c u) {gap : List Char}
    (hgap : ∀ c ∈ gap, isBlank c = true) :
    Spells (o :: (text first ++ ((items.flatMap fun a => ',' :: text a) ++ (gap ++ [c]))))
      (t :: (ts first ++ ((items.flatMap fun a => .comma :: ts a) ++ [u]))) := by
  rw [List.forall_mem_cons] at h
  have hends : EndsNumber (gap ++ [c]) := by
    cases gap with
    | nil => exact hclose.endsNumber
    | cons b gap => exact .of_isBlank (hgap b List.mem_cons_self) _
  have hlast : Spells (gap ++ [c]) [u] := (nil.sign hclose).blanks hgap
  have hcomma : ∀ a ∈ items, EndsNumber (',' :: text a) := fun _ _ => IsSign.comma.endsNumber
  obtain ⟨hcommas, hrest⟩ := flatMap hcomma fun a ha => (h.2 a ha).sign .comma
  exact (h.1.append (hcommas.append hends) (hrest.append hends hlast)).sign hopen

/-- A name, a colon, perhaps a gap, and a value. -/
theorem field (name : String) {gap : List Char} (hgap : ∀ c ∈ gap, isBlank c = true)
    {text : List Char} {ts : List Token} (h : Spells text ts) :
    Spells ((Token.string (some name)).text ++ ':' :: (gap ++ text))
      (.string (some name) :: .colon :: ts) :=
  (string name).append IsSign.colon.endsNumber ((h.blanks hgap).sign .colon)

end Spells

/-! ### The writers -/

theorem itemTokens_cons (v : Json) (rest : List Json) :
    itemTokens (v :: rest) = tokens v ++ rest.flatMap fun w => .comma :: tokens w := by
  induction rest generalizing v with
  | nil => simp [itemTokens]
  | cons w rest ih => rw [itemTokens, ih, List.flatMap_cons, List.cons_append]

/-- The tokens of a field. -/
def fieldToken (f : Option String × Json) : List Token := .string f.1 :: .colon :: tokens f.2

theorem fieldTokens_cons (f : Option String × Json) (rest : List (Option String × Json)) :
    fieldTokens (f :: rest) = fieldToken f ++ rest.flatMap fun g => .comma :: fieldToken g := by
  induction rest generalizing f with
  | nil => simp [fieldTokens, fieldToken]
  | cons g rest ih =>
    rw [fieldTokens, ih, List.flatMap_cons]
    simp [fieldToken]

theorem spreadItems_eq (depth : Nat) (items : List Json) :
    spreadItems depth items =
      items.flatMap fun v => ',' :: (lineBreak depth ++ spread depth v) := by
  induction items with
  | nil => simp [spreadItems]
  | cons v items ih => simp [spreadItems, ih]

/-- The text of a field on its own line. -/
def spreadField (depth : Nat) (f : Option String × Json) : List Char :=
  (Token.string f.1).text ++ ':' :: ' ' :: spread depth f.2

theorem spreadFields_eq (depth : Nat) (fields : List (Option String × Json)) :
    spreadFields depth fields =
      fields.flatMap fun f => ',' :: (lineBreak depth ++ spreadField depth f) := by
  induction fields with
  | nil => simp [spreadFields]
  | cons f fields ih => simp [spreadFields, spreadField, ih]

/-- A value without doubles and without strings that denote no text. -/
inductive Plain : Json → Prop
  | null : Plain .null
  | bool (b : Bool) : Plain (.bool b)
  | integer (negative : Bool) (n : Nat) : Plain (.number (.integer negative n))
  | text (s : String) : Plain (.text s)
  | array {items : List Json} (h : ∀ v ∈ items, Plain v) : Plain (.array items)
  | object {fields : List (Option String × Json)} (hnames : ∀ f ∈ fields, ∃ name, f.1 = some name)
    (h : ∀ f ∈ fields, Plain f.2) : Plain (.object fields)

namespace Spells

theorem null : Spells Token.null.text [.null] := fun _ _ => Token.scan_cons rfl rfl

theorem bool (b : Bool) : Spells (Token.bool b).text [.bool b] := fun _ _ => by
  cases b <;> exact Token.scan_cons rfl rfl

/-- A value of one token. -/
theorem scalar {v : Json} {t : Token} (hv : tokens v = [t]) (h : Spells t.text [t]) :
    Spells ((tokens v).flatMap Token.text) (tokens v) := by
  rw [hv, List.flatMap_singleton]
  exact h

theorem compact {v : Json} (h : Plain v) : Spells ((tokens v).flatMap Token.text) (tokens v) := by
  have hgap : ∀ c ∈ ([] : List Char), isBlank c = true := List.forall_mem_nil _
  induction h with
  | null => exact scalar rfl null
  | bool b => exact scalar rfl (bool b)
  | integer negative n => exact scalar rfl (number negative n)
  | text s => exact scalar rfl (string s)
  | @array items h ih =>
    cases items with
    | nil => exact (nil.sign .closeArray).sign .openArray
    | cons v rest =>
      rw [tokens, itemTokens_cons]
      simpa [List.flatMap_assoc, Token.text] using enclosed ih .openArray .closeArray hgap
  | @object fields hnames h ih =>
    cases fields with
    | nil => exact (nil.sign .closeObject).sign .openObject
    | cons f rest =>
      have hfield : ∀ g ∈ f :: rest, Spells ((fieldToken g).flatMap Token.text) (fieldToken g) := by
        intro g hg
        obtain ⟨name, hname⟩ := hnames g hg
        rw [fieldToken, hname]
        exact field name hgap (ih g hg)
      rw [tokens, fieldTokens_cons]
      simpa [List.flatMap_assoc, Token.text] using enclosed hfield .openObject .closeObject hgap

theorem isBlank_of_mem_lineBreak (depth : Nat) : ∀ c ∈ lineBreak depth, isBlank c = true := by
  rw [lineBreak, List.forall_mem_cons]
  refine ⟨rfl, fun c hc => ?_⟩
  rw [List.eq_of_mem_replicate hc]
  rfl

theorem spread {v : Json} (h : Plain v) (depth : Nat) :
    Spells (Json.spread depth v) (tokens v) := by
  induction h generalizing depth with
  | null => exact null
  | bool b => exact bool b
  | integer negative n => exact number negative n
  | text s => exact string s
  | @array items h ih =>
    cases items with
    | nil => exact (nil.sign .closeArray).sign .openArray
    | cons v rest =>
      have hline : ∀ w ∈ v :: rest, Spells
          (lineBreak (depth + 1) ++ Json.spread (depth + 1) w) (tokens w) :=
        fun w hw => (ih w hw (depth + 1)).blanks (isBlank_of_mem_lineBreak _)
      rw [tokens, itemTokens_cons]
      simpa [Json.spread, spreadItems_eq] using
        enclosed hline .openArray .closeArray (isBlank_of_mem_lineBreak depth)
  | @object fields hnames h ih =>
    cases fields with
    | nil => exact (nil.sign .closeObject).sign .openObject
    | cons f rest =>
      have hspace : ∀ c ∈ [' '], isBlank c = true := List.forall_mem_singleton.2 rfl
      have hline : ∀ g ∈ f :: rest, Spells
          (lineBreak (depth + 1) ++ spreadField (depth + 1) g) (fieldToken g) := by
        intro g hg
        obtain ⟨name, hname⟩ := hnames g hg
        rw [spreadField, fieldToken, hname]
        exact (field name hspace (ih g hg (depth + 1))).blanks (isBlank_of_mem_lineBreak _)
      rw [tokens, fieldTokens_cons]
      simpa [Json.spread, spreadField, spreadFields_eq] using
        enclosed hline .openObject .closeObject (isBlank_of_mem_lineBreak depth)

end Spells

/-! ### The machine -/

namespace State

theorem run_cons {s s' : State} {t : Token} (h : s.step t = some s') (ts : List Token) :
    s.run (t :: ts) = s'.run ts := by
  rw [run, List.foldlM_cons, h]
  rfl

/-- No value begins with a closing bracket. -/
theorem run_firstItem (stack : List Frame) (v : Json) (ts : List Token) :
    (firstItem stack).run (tokens v ++ ts) = (value (.array [] :: stack)).run (tokens v ++ ts) := by
  cases v <;> rfl

mutual
/-- The tokens of a value take the machine from waiting for one to having it. -/
theorem run_tokens : ∀ (v : Json) (stack : List Frame) (ts : List Token),
    (value stack).run (tokens v ++ ts) = (after v stack).run ts
  | .null, _, _ => run_cons rfl _
  | .bool _, _, _ => run_cons rfl _
  | .number _, _, _ => run_cons rfl _
  | .string _, _, _ => run_cons rfl _
  | .array [], stack, ts => by
    rw [tokens, itemTokens]
    rfl
  | .array (v :: rest), stack, ts => by
    rw [tokens, itemTokens_cons]
    simp only [List.cons_append, List.append_assoc, List.nil_append]
    rw [run_cons rfl, run_firstItem, run_tokens v, run_items rest]
    rfl
  | .object [], stack, ts => by
    rw [tokens, fieldTokens]
    rfl
  | .object ((name, v) :: rest), stack, ts => by
    rw [tokens, fieldTokens_cons, fieldToken]
    simp only [List.cons_append, List.append_assoc, List.nil_append]
    rw [run_cons rfl, run_cons rfl, run_cons rfl, run_tokens v, run_fields rest]
    rfl

/-- The further items of an array, up to its bracket. -/
theorem run_items : ∀ (items : List Json) (v : Json) (done : List Json) (stack : List Frame)
    (ts : List Token),
    (after v (.array done :: stack)).run
      ((items.flatMap fun w => .comma :: tokens w) ++ .closeArray :: ts) =
    (after (.array ((v :: done).reverse ++ items)) stack).run ts
  | [], v, done, stack, ts => by
    rw [List.flatMap_nil, List.nil_append, List.append_nil, run_cons rfl]
  | w :: items, v, done, stack, ts => by
    rw [List.flatMap_cons]
    simp only [List.cons_append, List.append_assoc]
    rw [run_cons rfl, run_tokens w, run_items items]
    simp

/-- The further fields of an object, up to its brace. -/
theorem run_fields : ∀ (fields : List (Option String × Json)) (name : Option String) (v : Json)
    (done : List (Option String × Json)) (stack : List Frame) (ts : List Token),
    (after v (.object done name :: stack)).run
      ((fields.flatMap fun f => .comma :: fieldToken f) ++ .closeObject :: ts) =
    (after (.object (((name, v) :: done).reverse ++ fields)) stack).run ts
  | [], name, v, done, stack, ts => by
    rw [List.flatMap_nil, List.nil_append, List.append_nil, run_cons rfl]
  | (name', w) :: fields, name, v, done, stack, ts => by
    rw [List.flatMap_cons, fieldToken]
    simp only [List.cons_append, List.append_assoc]
    rw [run_cons rfl, run_cons rfl, run_cons rfl, run_tokens w, run_fields fields]
    simp
end

end State

theorem ofTokens?_tokens (v : Json) : ofTokens? (tokens v) = some v := by
  have h := State.run_tokens v [] []
  rw [List.append_nil] at h
  rw [ofTokens?, h]
  rfl

/-- Reading a text that spells a value gives that value. -/
theorem Spells.read? {text : List Char} {v : Json} (h : Spells text (tokens v)) :
    Json.read? (String.ofList text) = some v := by
  have hscan := h [] trivial
  rw [Token.scan, Option.map_some, List.append_nil, List.append_nil] at hscan
  rw [Json.read?, String.toList_ofList, hscan, Option.bind_some, ofTokens?_tokens]

theorem read?_compact {v : Json} (h : Plain v) : read? v.compact = some v :=
  (Spells.compact h).read?

theorem read?_indented {v : Json} (h : Plain v) : read? v.indented = some v :=
  (Spells.spread h 0).read?

end TopOfBook.Json
