import KeyspaceQuery.Text.Lines
import Mathlib.Data.List.Basic

/-! Streams as the lines they are cut into, and the bytes of a text. No character but the line feed
has a byte of its code, so the bytes of a text are cut where the text has its line feeds. -/

namespace KeyspaceQuery.Text

/-- The stream consists of these lines: a line feed ends each and belongs to it, but the last one
may go without if it is not empty. -/
inductive Cut : List UInt8 → List (List UInt8) → Prop
  | nil : Cut [] []
  | last {line : List UInt8} (hne : line ≠ []) (hline : 10 ∉ line) : Cut line [line]
  | cons {line rest : List UInt8} {ls : List (List UInt8)} (hline : 10 ∉ line)
      (hrest : Cut rest ls) : Cut (line ++ 10 :: rest) ((line ++ [10]) :: ls)

section Lines

variable {line rest input : List UInt8}

theorem lines_append (h : 10 ∉ line) :
    lines (line ++ 10 :: rest) = (line ++ [10]) :: lines rest := by
  induction line with
  | nil => simp [lines]
  | cons b line ih =>
    have hb : b ≠ 10 := (List.ne_of_not_mem_cons h).symm
    have hline : 10 ∉ line := List.not_mem_of_not_mem_cons h
    rw [List.cons_append, lines, if_neg hb, ih hline]
    rfl

theorem lines_of_not_mem (hne : line ≠ []) (h : 10 ∉ line) : lines line = [line] := by
  induction line with
  | nil => exact absurd rfl hne
  | cons b line ih =>
    have hb : b ≠ 10 := (List.ne_of_not_mem_cons h).symm
    have hline : 10 ∉ line := List.not_mem_of_not_mem_cons h
    rw [lines, if_neg hb]
    cases line with
    | nil => rfl
    | cons c line => rw [ih (List.cons_ne_nil c line) hline]

theorem cut_lines (input : List UInt8) : Cut input (lines input) := by
  induction input with
  | nil => exact .nil
  | cons b rest ih =>
    rw [lines]
    by_cases hb : b = 10
    · subst hb
      have h : Cut ([] ++ 10 :: rest) (([] ++ [10]) :: lines rest) := .cons List.not_mem_nil ih
      exact h
    · rw [if_neg hb]
      have hcons {line : List UInt8} (h : 10 ∉ line) : 10 ∉ b :: line :=
        List.not_mem_cons_of_ne_of_not_mem (Ne.symm hb) h
      generalize hls : lines rest = ls at ih
      cases ih with
      | nil => exact .last (List.cons_ne_nil b []) (hcons List.not_mem_nil)
      | last hne hline => exact .last (List.cons_ne_nil b rest) (hcons hline)
      | cons hline hrest => exact .cons (hcons hline) hrest

/-- A stream is cut in one way. -/
theorem cut_iff {ls : List (List UInt8)} : Cut input ls ↔ lines input = ls := by
  refine ⟨fun h => ?_, fun h => h ▸ cut_lines input⟩
  induction h with
  | nil => rfl
  | last hne hline => exact lines_of_not_mem hne hline
  | cons hline hrest ih => rw [lines_append hline, ih]

end Lines

/-- The bytes of a text in UTF-8. -/
def encode (s : String) : List UInt8 := s.toUTF8.data.toList

theorem decode?_encode (s : String) : decode? (encode s) = some s := by
  rw [decode?, encode, Array.toArray_toList, String.fromUTF8?, String.toUTF8_eq_toByteArray,
    dif_pos s.isValidUTF8]
  rfl

theorem encode_append (s t : String) : encode (s ++ t) = encode s ++ encode t := by
  simp [encode]

theorem encode_eq_flatMap (s : String) : encode s = s.toList.flatMap String.utf8EncodeChar := by
  rw [encode, String.toUTF8_eq_toByteArray, ← String.utf8Encode_toList, List.utf8Encode,
    List.data_toByteArray]

/-- The other bytes of a code are above those of ASCII. -/
theorem not_mem_utf8EncodeChar {c : Char} (hc : c ≠ '\n') : 10 ∉ String.utf8EncodeChar c := by
  -- the first byte of a longer code is 192 or more, the others are 128 or more
  have high {n : Nat} (h : 128 ≤ n) (h' : n < 256) : (10 : UInt8) ≠ UInt8.ofNat n := fun heq => by
    have := congrArg UInt8.toNat heq
    rw [UInt8.toNat_ofNat', Nat.mod_eq_of_lt h'] at this
    change 10 = n at this
    omega
  fun_cases String.utf8EncodeChar with
  | case1 v hv =>
    rw [List.mem_singleton]
    intro heq
    have := congrArg UInt8.toNat heq
    rw [UInt8.toNat_ofNat', Nat.mod_eq_of_lt (by omega)] at this
    exact hc (Char.ext (UInt32.toNat.inj this.symm))
  | case2 v _ _ | case3 v _ _ _ | case4 v _ _ _ =>
    simp only [List.mem_cons, List.not_mem_nil, or_false, not_or]
    and_intros <;> exact high (by omega) (by omega)

/-- No line feed stands in the text. -/
def OneLine (text : String) : Prop := '\n' ∉ text.toList

instance (text : String) : Decidable (OneLine text) := inferInstanceAs (Decidable (_ ∉ _))

section OneLine

variable {s t : String} {xs : List String}

theorem OneLine.append (hs : OneLine s) (ht : OneLine t) : OneLine (s ++ t) := by
  rw [OneLine, String.toList_append, List.mem_append, not_or]
  exact ⟨hs, ht⟩

theorem OneLine.intercalate {separator : String} (hsep : OneLine separator)
    (h : ∀ x ∈ xs, OneLine x) : OneLine (separator.intercalate xs) := by
  induction xs with
  | nil => exact List.not_mem_nil
  | cons x xs ih =>
    obtain ⟨hx, hxs⟩ := List.forall_mem_cons.1 h
    cases xs with
    | nil => rwa [String.intercalate_singleton]
    | cons y ys =>
      rw [String.intercalate_cons_of_ne_nil (List.cons_ne_nil y ys)]
      exact (hx.append hsep).append (ih hxs)

theorem OneLine.not_mem_encode (h : OneLine s) : 10 ∉ encode s := by
  rw [encode_eq_flatMap, List.mem_flatMap]
  rintro ⟨c, hc, hbyte⟩
  exact not_mem_utf8EncodeChar (fun heq => h (heq ▸ hc)) hbyte

/-- Lines put together are cut apart again. -/
theorem cut_unlines (h : ∀ x ∈ xs, OneLine x) :
    Cut (encode (unlines xs)) (xs.map fun x => encode (x ++ "\n")) := by
  induction xs with
  | nil => exact .nil
  | cons x xs ih =>
    obtain ⟨hx, hxs⟩ := List.forall_mem_cons.1 h
    have hnewline : encode "\n" = [10] := by decide
    rw [List.map_cons, unlines, encode_append, encode_append, hnewline, List.append_assoc,
      List.singleton_append]
    exact .cons hx.not_mem_encode (ih hxs)

theorem unlines_eq_join (xs : List String) : unlines xs = String.join (xs.map (· ++ "\n")) := by
  induction xs with
  | nil => rfl
  | cons x xs ih => rw [unlines, ih, List.map_cons, String.join_cons]

theorem unlines_append (xs ys : List String) : unlines (xs ++ ys) = unlines xs ++ unlines ys := by
  induction xs with
  | nil => exact String.empty_append.symm
  | cons x xs ih =>
    rw [List.cons_append, unlines, unlines, ih]
    simp only [String.append_assoc]

end OneLine

section Split

variable {text : String} {xs : List String}

/-- No piece of a list has the separator that it was split at. -/
theorem not_mem_of_mem_splitOn {c : Char} {cs piece : List Char} (h : piece ∈ cs.splitOn c) :
    c ∉ piece := by
  induction cs generalizing piece with
  | nil =>
    obtain rfl : piece = [] := by simpa using h
    exact List.not_mem_nil
  | cons d cs ih =>
    obtain ⟨first, pieces, hsplit⟩ := List.exists_cons_of_ne_nil (List.splitOn_ne_nil c cs)
    rw [List.splitOn_cons_eq_if_modifyHead, hsplit] at h
    have hnot : ∀ piece ∈ first :: pieces, c ∉ piece := fun _ hpiece => ih (hsplit ▸ hpiece)
    obtain ⟨hfirst, hpieces⟩ := List.forall_mem_cons.1 hnot
    split at h
    · rcases List.mem_cons.1 h with rfl | h
      · exact List.not_mem_nil
      · exact hnot piece h
    · rename_i hd
      rcases List.mem_cons.1 h with rfl | h
      · exact List.not_mem_cons_of_ne_of_not_mem (fun hc => hd (beq_iff_eq.2 hc.symm)) hfirst
      · exact hpieces piece h

/-- The lines of a text with no line feed behind the last one. -/
def splitLines (text : String) : List String := (text.toList.splitOn '\n').map String.ofList

theorem splitLines_ne_nil (text : String) : splitLines text ≠ [] := by
  simp [splitLines, List.splitOn_ne_nil]

theorem oneLine_of_mem_splitLines {line : String} (h : line ∈ splitLines text) : OneLine line := by
  obtain ⟨piece, hpiece, rfl⟩ := List.mem_map.1 h
  rw [OneLine, String.toList_ofList]
  exact not_mem_of_mem_splitOn hpiece

theorem intercalate_splitLines (text : String) : "\n".intercalate (splitLines text) = text := by
  have hlines : (splitLines text).map String.toList = text.toList.splitOn '\n' := by
    simp [splitLines, Function.comp_def]
  rw [← String.toList_inj, String.toList_intercalate, hlines]
  exact List.intercalate_splitOn '\n'

theorem unlines_eq_intercalate (hne : xs ≠ []) : unlines xs = "\n".intercalate xs ++ "\n" := by
  induction xs with
  | nil => exact absurd rfl hne
  | cons x xs ih =>
    cases xs with
    | nil => rw [String.intercalate_singleton, unlines, unlines, String.append_empty]
    | cons y ys =>
      rw [unlines, ih (List.cons_ne_nil y ys),
        String.intercalate_cons_of_ne_nil (List.cons_ne_nil y ys)]
      simp only [String.append_assoc]

theorem unlines_splitLines (text : String) : unlines (splitLines text) = text ++ "\n" := by
  rw [unlines_eq_intercalate (splitLines_ne_nil text), intercalate_splitLines]

theorem splitLines_intercalate (h : ∀ x ∈ xs, OneLine x) (hne : xs ≠ []) :
    splitLines ("\n".intercalate xs) = xs := by
  have hlists : ∀ cs ∈ xs.map String.toList, '\n' ∉ cs := List.forall_mem_map.2 h
  have hsplit := List.splitOn_intercalate '\n' hlists (by simpa using hne)
  have hnewline : "\n".toList = ['\n'] := rfl
  rw [splitLines, String.toList_intercalate, hnewline, hsplit]
  simp [Function.comp_def]

end Split

end KeyspaceQuery.Text
