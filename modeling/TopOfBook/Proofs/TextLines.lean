import Mathlib.Data.List.Basic
import TopOfBook.Text.Lines

/-! Lines that are joined read back as they were. In UTF-8 a byte below 128 stands for a character
by itself, so the bytes of a line without a line feed hold none, and the last byte is a carriage
return only if the last character is. -/

namespace TopOfBook.Text

/-! ### Bytes -/

def bytes (s : String) : List UInt8 := s.toUTF8.data.toList

theorem bytes_eq (s : String) : bytes s = s.toList.flatMap String.utf8EncodeChar := by
  rw [bytes, String.toUTF8_eq_toByteArray, ← String.ofList_toList (s := s),
    String.toByteArray_ofList, List.utf8Encode, List.data_toByteArray, String.ofList_toList]

theorem bytes_append (s t : String) : bytes (s ++ t) = bytes s ++ bytes t := by
  simp only [bytes_eq, String.toList_append, List.flatMap_append]

theorem fromUTF8?_bytes (s : String) : String.fromUTF8? ⟨(bytes s).toArray⟩ = some s := by
  change String.fromUTF8? s.toByteArray = some s
  unfold String.fromUTF8?
  rw [dif_pos s.isValidUTF8]
  rfl

/-- A byte below 128 is a character. -/
theorem toNat_eq_of_mem_encode {c : Char} {b : UInt8} (hb : b.toNat < 128)
    (h : b ∈ String.utf8EncodeChar c) : c.toNat = b.toNat := by
  have hhigh (n k : Nat) (hk : 128 ≤ k) (hn : n + k < 256) :
      ¬ (UInt8.ofNat (n + k)).toNat < 128 := by
    rw [UInt8.toNat_ofNat', Nat.mod_eq_of_lt hn]
    omega
  unfold String.utf8EncodeChar at h
  simp only at h
  split_ifs at h <;> simp only [List.mem_cons, List.not_mem_nil, or_false] at h
  · rw [h, UInt8.toNat_ofNat', Nat.mod_eq_of_lt (by omega)]
    rfl
  · obtain rfl | rfl := h <;> exact absurd hb (hhigh _ _ (by omega) (by omega))
  · obtain rfl | rfl | rfl := h <;> exact absurd hb (hhigh _ _ (by omega) (by omega))
  · obtain rfl | rfl | rfl | rfl := h <;> exact absurd hb (hhigh _ _ (by omega) (by omega))

theorem encode_ne_nil (c : Char) : String.utf8EncodeChar c ≠ [] := by
  rw [← List.length_pos_iff, String.length_utf8EncodeChar]
  exact c.utf8Size_pos

theorem bytes_ne_nil {s : String} (h : s ≠ "") : bytes s ≠ [] := by
  rw [bytes_eq]
  cases hs : s.toList with
  | nil => exact absurd (String.toList_eq_nil_iff.1 hs) h
  | cons c cs =>
    rw [List.flatMap_cons]
    exact List.append_ne_nil_of_left_ne_nil (encode_ne_nil c) _

theorem not_mem_bytes {s : String} {c : Char} {b : UInt8} (hb : b.toNat < 128)
    (hc : b.toNat = c.toNat) (h : c ∉ s.toList) : b ∉ bytes s := by
  rw [bytes_eq, List.mem_flatMap]
  rintro ⟨c', hmem, hb'⟩
  have heq := toNat_eq_of_mem_encode hb hb'
  rw [hc, Char.toNat_inj] at heq
  exact h (heq ▸ hmem)

/-! ### Lines -/

theorem splitLines_append {front : List UInt8} (h : lineFeed ∉ front) (current rest : List UInt8) :
    splitLines current (front ++ lineFeed :: rest) =
      endedLine (front.reverse ++ current) :: splitLines [] rest := by
  induction front generalizing current with
  | nil => simp [splitLines]
  | cons b front ih =>
    rw [List.mem_cons, not_or] at h
    rw [List.cons_append, splitLines, if_neg (Ne.symm h.1), ih h.2]
    simp

theorem splitLines_of_not_mem {front : List UInt8} (h : lineFeed ∉ front)
    (current : List UInt8) :
    splitLines current front =
      if (front.reverse ++ current).isEmpty then [] else [(front.reverse ++ current).reverse] := by
  induction front generalizing current with
  | nil => rfl
  | cons b front ih =>
    rw [List.mem_cons, not_or] at h
    rw [splitLines, if_neg (Ne.symm h.1), ih h.2]
    simp

/-- What ends a line. -/
inductive LineEnd
  | lineFeed
  /-- A carriage return and a line feed. -/
  | carriageReturn
deriving DecidableEq, Repr

def LineEnd.text : LineEnd → String
  | lineFeed => "\n"
  | carriageReturn => "\r\n"

/-- The lines one after the other, each but the last with its end. -/
def joinLines : List (String × LineEnd) → String
  | [] => ""
  | [(line, _)] => line
  | (line, e) :: next :: rest => line ++ e.text ++ joinLines (next :: rest)

variable {line rest : String}

theorem lines_eq (s : String) :
    lines s.toUTF8 =
      (splitLines [] (bytes s)).map fun line => String.fromUTF8? ⟨line.toArray⟩ := rfl

theorem lineFeed_not_mem_bytes (h : '\n' ∉ line.toList) : lineFeed ∉ bytes line :=
  not_mem_bytes (by decide) rfl h

/-- The last line is there unless it is empty. -/
theorem lines_last (h : '\n' ∉ line.toList) :
    lines line.toUTF8 = if line = "" then [] else [some line] := by
  rw [lines_eq, splitLines_of_not_mem (lineFeed_not_mem_bytes h), List.append_nil]
  by_cases hline : line = ""
  · subst hline
    rfl
  · have hne : ¬ (bytes line).reverse.isEmpty = true := by simpa using bytes_ne_nil hline
    rw [if_neg hne, if_neg hline, List.reverse_reverse, List.map_singleton, fromUTF8?_bytes]

theorem lines_append {read : String} (h : '\n' ∉ line.toList)
    (hended : endedLine (bytes line).reverse = bytes read) :
    lines (line ++ "\n" ++ rest).toUTF8 = some read :: lines rest.toUTF8 := by
  have hbytes : bytes (line ++ "\n" ++ rest) = bytes line ++ lineFeed :: bytes rest := by
    rw [bytes_append, bytes_append, List.append_assoc]
    rfl
  rw [lines_eq, hbytes, splitLines_append (lineFeed_not_mem_bytes h), List.append_nil, hended,
    List.map_cons, fromUTF8?_bytes, lines_eq]

/-- A line feed takes a carriage return before it along. -/
theorem endedLine_carriageReturn (line : String) :
    endedLine (bytes (line ++ "\r")).reverse = bytes line := by
  rw [bytes_append, show bytes "\r" = [carriageReturn] from rfl, List.reverse_append]
  simp [endedLine]

theorem endedLine_of_ne {c : Char} (hc : c ≠ '\r') (line : String) :
    endedLine (bytes (line.push c)).reverse = bytes (line.push c) := by
  obtain ⟨front, b, hb⟩ := (List.eq_nil_or_concat' _).resolve_left (encode_ne_nil c)
  have hne : b ≠ carriageReturn := by
    rintro rfl
    have hmem : carriageReturn ∈ String.utf8EncodeChar c := by simp [hb]
    exact hc (Char.toNat_inj.1 (toNat_eq_of_mem_encode (by decide) hmem))
  have hbytes : bytes (line.push c) = bytes line ++ front ++ [b] := by
    rw [bytes_eq, String.toList_push, List.flatMap_append, ← bytes_eq, List.flatMap_singleton, hb,
      List.append_assoc]
  rw [hbytes, List.reverse_append, List.reverse_singleton, List.singleton_append, endedLine,
    if_neg hne]
  simp

/-- A line that is ended is read as it is, or without a carriage return at its end. -/
theorem lines_ended (h : '\n' ∉ line.toList) (e : LineEnd) (rest : String) :
    ∃ read, lines (line ++ e.text ++ rest).toUTF8 = some read :: lines rest.toUTF8 ∧
      (line = read ∨ line = read ++ "\r") := by
  cases e with
  | carriageReturn =>
    have hreturn : '\n' ∉ (line ++ "\r").toList := by simpa using h
    have hend : line ++ "\r" ++ "\n" = line ++ "\r\n" := String.append_assoc
    refine ⟨line, ?_, .inl rfl⟩
    rw [LineEnd.text, ← hend]
    exact lines_append hreturn (endedLine_carriageReturn line)
  | lineFeed =>
    have hcases := String.push_induction line (fun s => s = "" ∨ ∃ front c, s = String.push front c)
      (.inl rfl) fun front c _ => .inr ⟨front, c, rfl⟩
    obtain rfl | ⟨front, c, rfl⟩ := hcases
    · exact ⟨"", lines_append h rfl, .inl rfl⟩
    by_cases hc : c = '\r'
    · have hpush : front.push c = front ++ "\r" := hc ▸ String.push_eq_append '\r'
      rw [hpush] at h ⊢
      exact ⟨front, lines_append h (endedLine_carriageReturn front), .inr rfl⟩
    · exact ⟨front.push c, lines_append h (endedLine_of_ne hc front), .inl rfl⟩

end TopOfBook.Text
