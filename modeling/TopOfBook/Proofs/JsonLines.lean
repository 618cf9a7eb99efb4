import TopOfBook.Proofs.JsonText

/-! JSON on a line of its own. A compact text has no control characters, so it is one line. A text
that scans to some tokens spells them: with more text behind it, nothing that was read before is
read in another way, unless a number at its end could go on there. So blanks behind a text make no
difference to its value. -/

namespace TopOfBook.Json

variable {cs left rest : List Char}

/-! ### Numbers -/

theorem Digit.toChar_of_ofChar? {c : Char} {d : Digit} (h : ofChar? c = some d) : d.toChar = c := by
  unfold ofChar? at h
  split at h
  · next hc =>
    cases h
    rw [toChar, Nat.add_sub_cancel' hc.1, Char.ofNat_toNat]
  · cases h

theorem spanDigits_tail (cs : List Char) (h : EndsNumber rest) :
    spanDigits (cs ++ rest) = ((spanDigits cs).1, (spanDigits cs).2 ++ rest) := by
  induction cs with
  | nil => exact spanDigits_append [] h
  | cons c cs ih =>
    rw [List.cons_append, spanDigits, spanDigits, ih]
    cases Digit.ofChar? c <;> rfl

theorem scanDigits_eq_some_iff {digits : List Digit} :
    scanDigits cs = some (digits, left) ↔ digits ≠ [] ∧ spanDigits cs = (digits, left) := by
  unfold scanDigits
  rcases spanDigits cs with ⟨_ | ⟨d, ds⟩, after⟩
  · constructor
    · rintro ⟨⟩
    · rintro ⟨hnone, ⟨⟩⟩
      exact absurd rfl hnone
  · constructor
    · rintro ⟨⟩
      exact ⟨List.cons_ne_nil _ _, rfl⟩
    · rintro ⟨-, ⟨⟩⟩
      rfl

theorem scanDigits_tail {digits : List Digit} (hscan : scanDigits cs = some (digits, left))
    (h : EndsNumber rest) : scanDigits (cs ++ rest) = some (digits, left ++ rest) := by
  rw [scanDigits_eq_some_iff] at hscan ⊢
  rw [spanDigits_tail cs h, hscan.2]
  exact ⟨hscan.1, rfl⟩

/-- Digits begin with a digit. -/
theorem exists_digit_of_scanDigits {r : List Digit × List Char} (hscan : scanDigits cs = some r) :
    ∃ d after, cs = Digit.toChar d :: after := by
  cases cs with
  | nil => cases hscan
  | cons c cs =>
    cases hd : Digit.ofChar? c with
    | none => simp [scanDigits, spanDigits, hd] at hscan
    | some d => exact ⟨d, cs, by rw [Digit.toChar_of_ofChar? hd]⟩

theorem scanWhole_tail {digits : List Digit} (hscan : scanWhole cs = some (digits, left))
    (h : EndsNumber rest) : scanWhole (cs ++ rest) = some (digits, left ++ rest) := by
  unfold scanWhole at hscan
  split at hscan
  · cases hscan
    rfl
  · next hzero =>
    obtain ⟨d, after, rfl⟩ := exists_digit_of_scanDigits hscan
    rw [← scanDigits_tail hscan h, List.cons_append, scanWhole]
    intro _ heq
    exact hzero after (by rw [(List.cons.inj heq).1])

theorem scanFraction_tail {digits : List Digit} (hscan : scanFraction cs = some (digits, left))
    (h : EndsNumber rest) : scanFraction (cs ++ rest) = some (digits, left ++ rest) := by
  unfold scanFraction at hscan
  split at hscan
  · exact scanDigits_tail hscan h
  · next hpoint =>
    cases hscan
    cases cs with
    | nil => exact scanFraction_of_endsNumber h
    | cons c cs =>
      rw [List.cons_append, scanFraction]
      rintro _ ⟨⟩
      exact hpoint cs rfl

theorem scanSign_tail (c : Char) (cs rest : List Char) :
    scanSign (c :: cs ++ rest) = ((scanSign (c :: cs)).1, (scanSign (c :: cs)).2 ++ rest) := by
  by_cases hminus : c = '-'
  · subst hminus
    rfl
  by_cases hplus : c = '+'
  · subst hplus
    rfl
  have hnone (cs : List Char) : scanSign (c :: cs) = (false, c :: cs) := by
    rw [scanSign]
    · rintro _ ⟨⟩
      exact hminus rfl
    · rintro _ ⟨⟩
      exact hplus rfl
  rw [List.cons_append, hnone, hnone, List.cons_append]

theorem scanExponent_tail {e : Option Exponent} (hscan : scanExponent cs = some (e, left))
    (h : EndsNumber rest) : scanExponent (cs ++ rest) = some (e, left ++ rest) := by
  cases cs with
  | nil =>
    cases hscan
    exact scanExponent_of_endsNumber h
  | cons c cs =>
    rw [scanExponent] at hscan
    rw [List.cons_append, scanExponent]
    split at hscan
    · next he =>
      obtain ⟨⟨digits, after⟩, hdigits, heq⟩ := Option.map_eq_some_iff.1 hscan
      cases heq
      cases cs with
      | nil => cases hdigits
      | cons c' cs =>
        rw [if_pos he, scanSign_tail, scanDigits_tail hdigits h, Option.map_some]
    · next he =>
      cases hscan
      rw [if_neg he]
      rfl

theorem scanUnsigned_tail {negative : Bool} {l : Literal}
    (hscan : scanUnsigned negative cs = some (l, left)) (h : EndsNumber rest) :
    scanUnsigned negative (cs ++ rest) = some (l, left ++ rest) := by
  simp only [scanUnsigned, Option.bind_eq_bind, Option.bind_eq_some_iff, Prod.exists] at hscan
  obtain ⟨whole, _, hwhole, fraction, _, hfraction, exponent, _, hexponent, heq⟩ := hscan
  cases heq
  simp only [scanUnsigned, scanWhole_tail hwhole h, scanFraction_tail hfraction h,
    scanExponent_tail hexponent h, Option.bind_eq_bind, Option.bind_some]

theorem exists_digit_of_scanUnsigned {negative : Bool} {r : Literal × List Char}
    (hscan : scanUnsigned negative cs = some r) : ∃ d after, cs = Digit.toChar d :: after := by
  simp only [scanUnsigned, Option.bind_eq_bind, Option.bind_eq_some_iff, Prod.exists] at hscan
  obtain ⟨whole, _, hwhole, -⟩ := hscan
  unfold scanWhole at hwhole
  split at hwhole
  · exact ⟨Digit.zero, _, rfl⟩
  · exact exists_digit_of_scanDigits hwhole

/-! ### Strings and other tokens -/

theorem scanString_tail {pieces : List Piece} (hscan : scanString cs = some (pieces, left))
    (rest : List Char) : scanString (cs ++ rest) = some (pieces, left ++ rest) := by
  fun_induction scanString cs generalizing pieces left with
  | case1 => cases hscan
  | case2 =>
    cases hscan
    rfl
  | case3 a b c d after code pieces' left' hstring hcode ih =>
    cases hscan
    simp only [List.cons_append, scanString, ih hstring, hcode]
  | case4 => cases hscan
  | case5 c after hu e pieces' left' hstring hletter ih =>
    cases hscan
    rw [List.cons_append, List.cons_append, scanString_letter hletter, ih hstring]
    rfl
  | case6 => cases hscan
  | case7 => cases hscan
  | case8 c after hquote _ hslash hraw pieces' left' hstring ih =>
    cases hscan
    have hne : c ≠ '\\' := by
      cases after with
      | nil => cases hstring
      | cons c' after => exact fun hc => hslash c' after hc rfl
    rw [List.cons_append, scanString_raw hquote hne hraw, ih hstring]
    rfl
  | case9 => cases hscan

theorem scanToken_tail {t : Token} (hscan : scanToken cs = some (t, left))
    (h : EndsNumber rest) : scanToken (cs ++ rest) = some (t, left ++ rest) := by
  unfold scanToken at hscan
  split at hscan
  case h_10 after =>
    obtain ⟨⟨pieces, left'⟩, hstring, heq⟩ := Option.map_eq_some_iff.1 hscan
    cases heq
    simp only [List.cons_append, scanToken, scanString_tail hstring, Option.map_some]
  case h_11 after =>
    obtain ⟨⟨l, left'⟩, hnumber, heq⟩ := Option.map_eq_some_iff.1 hscan
    cases heq
    simp only [List.cons_append, scanToken, scanUnsigned_tail hnumber h, Option.map_some]
  case h_12 =>
    obtain ⟨⟨l, left'⟩, hnumber, heq⟩ := Option.map_eq_some_iff.1 hscan
    cases heq
    have hnext := scanUnsigned_tail hnumber h
    obtain ⟨d, after, rfl⟩ := exists_digit_of_scanUnsigned hnumber
    rw [List.cons_append] at hnext ⊢
    rw [scanToken_digit, hnext, Option.map_some]
  all_goals
    cases hscan
    rfl

/-! ### Texts -/

/-- A text spells the tokens that it scans to. -/
theorem Spells.of_scan {ts : List Token} (hscan : Token.scan cs = some ts) : Spells cs ts := by
  fun_induction Token.scan cs generalizing ts with
  | case1 =>
    cases hscan
    exact nil
  | case2 c after hblank ih => exact (ih hscan).blank hblank
  | case3 => cases hscan
  | case4 c after hblank t left htoken ih =>
    obtain ⟨us, hus, rfl⟩ := Option.map_eq_some_iff.1 hscan
    intro rest hrest
    have htail := scanToken_tail htoken hrest
    rw [List.cons_append] at htail ⊢
    rw [Token.scan_cons (by simpa using hblank) htail, ih hus rest hrest, Option.map_map]
    rfl

/-- Blanks behind a text make no difference. -/
theorem read?_append_blanks {text : String} {v : Json} (h : read? text = some v) {gap : String}
    (hgap : ∀ c ∈ gap.toList, isBlank c = true) : read? (text ++ gap) = some v := by
  obtain ⟨ts, hscan, hvalue⟩ := Option.bind_eq_some_iff.1 h
  have hends : EndsNumber gap.toList := by
    cases hlist : gap.toList with
    | nil => trivial
    | cons c rest => exact .of_isBlank (hgap c (hlist ▸ List.mem_cons_self)) rest
  have hskip := Spells.nil.blanks hgap [] trivial
  rw [List.append_nil, List.append_nil] at hskip
  rw [read?, String.toList_append, Spells.of_scan hscan _ hends, hskip]
  simpa [Token.scan] using hvalue

/-! ### Written texts -/

theorem le_toNat_hexDigit : ∀ n < 16, 0x20 ≤ (hexDigit n).toNat := by decide

theorem Digit.le_toNat_toChar : ∀ d : Digit, 0x20 ≤ d.toChar.toNat := by decide

/-- For the characters of a literal text, so that not all of Unicode is tried. -/
theorem le_toNat_of_all {cs : List Char} (h : (cs.all fun c => 0x20 ≤ c.toNat) = true) :
    ∀ c ∈ cs, 0x20 ≤ c.toNat :=
  fun c hc => of_decide_eq_true (List.all_eq_true.1 h c hc)

theorem le_toNat_escape (c : Char) : ∀ c' ∈ escape c, 0x20 ≤ c'.toNat := by
  unfold escape
  split_ifs with hquote hslash hb hf hn hr ht hcontrol
  iterate 7 exact le_toNat_of_all rfl
  · simp only [List.forall_mem_cons]
    exact ⟨by decide, by decide, by decide, by decide, le_toNat_hexDigit _ (by omega),
      le_toNat_hexDigit _ (by omega), List.forall_mem_nil _⟩
  · exact List.forall_mem_singleton.2 (Nat.not_lt.1 hcontrol)

theorem Literal.le_toNat_text (l : Literal) : ∀ c ∈ l.text, 0x20 ≤ c.toNat := by
  have hdigits (ds : List Digit) : ∀ c ∈ ds.map Digit.toChar, 0x20 ≤ c.toNat := by
    simp only [List.forall_mem_map]
    exact fun d _ => d.le_toNat_toChar
  have hsign (negative : Bool) :
      ∀ c ∈ (if negative then ['-'] else []), 0x20 ≤ Char.toNat c := by
    cases negative <;> exact le_toNat_of_all rfl
  obtain ⟨negative, whole, fraction, exponent⟩ := l
  simp only [text, List.forall_mem_append]
  refine ⟨⟨⟨hsign negative, hdigits whole⟩, ?_⟩, ?_⟩
  · split
    · exact List.forall_mem_nil _
    · exact List.forall_mem_cons.2 ⟨by decide, hdigits fraction⟩
  · cases exponent with
    | none => exact List.forall_mem_nil _
    | some e =>
      exact List.forall_mem_cons.2 ⟨by decide,
        List.forall_mem_append.2 ⟨hsign e.negative, hdigits e.digits⟩⟩

theorem Token.le_toNat_text (t : Token) : ∀ c ∈ t.text, 0x20 ≤ c.toNat := by
  cases t with
  | number l => exact l.le_toNat_text
  | string s =>
    cases s with
    | none => exact le_toNat_of_all rfl
    | some s =>
      have hquote : ∀ c ∈ ['"'], 0x20 ≤ c.toNat := le_toNat_of_all rfl
      refine List.forall_mem_cons.2 ⟨by decide, List.forall_mem_append.2 ⟨?_, hquote⟩⟩
      intro c hc
      obtain ⟨c', -, hc⟩ := List.mem_flatMap.1 hc
      exact le_toNat_escape c' c hc
  | bool b => cases b <;> exact le_toNat_of_all rfl
  | _ => exact le_toNat_of_all rfl

/-- A compact text has no control characters. -/
theorem le_toNat_compact (v : Json) : ∀ c ∈ v.compact.toList, 0x20 ≤ c.toNat := by
  intro c hc
  rw [compact, String.toList_ofList] at hc
  obtain ⟨t, -, hc⟩ := List.mem_flatMap.1 hc
  exact t.le_toNat_text c hc

end TopOfBook.Json
