import Fish.Cli.Session

/-!
Lines of text. Bytes that spell a text are cut into lines that spell pieces of it, because no
character but the newline has the byte of the newline in its spelling. So the lines that a
session reads are text, and put together they are the text of standard input.
-/

namespace Fish.Cli

/-- The bytes that spell the characters. -/
def bytesOf (cs : List Char) : List UInt8 := cs.flatMap String.utf8EncodeChar

theorem bytesOf_cons (c : Char) (cs : List Char) :
    bytesOf (c :: cs) = String.utf8EncodeChar c ++ bytesOf cs := List.flatMap_cons

theorem ofNat_ne_newline {n : Nat} (h : n % 256 ≠ 10) : 10 ≠ UInt8.ofNat n := by
  intro heq
  have hnat := congrArg UInt8.toNat heq
  rw [UInt8.toNat_ofNat'] at hnat
  exact h hnat.symm

theorem newline_not_mem {c : Char} (h : c ≠ '\n') : 10 ∉ String.utf8EncodeChar c := by
  have hval : c.val.toNat ≠ 10 := by
    intro hnat
    exact h (Char.ext (UInt32.toNat_inj.mp hnat))
  fun_cases String.utf8EncodeChar c
  all_goals
    simp only [List.mem_cons, List.not_mem_nil, or_false, not_or]
  · exact ofNat_ne_newline (by omega)
  · exact ⟨ofNat_ne_newline (by omega), ofNat_ne_newline (by omega)⟩
  · exact ⟨ofNat_ne_newline (by omega), ofNat_ne_newline (by omega),
      ofNat_ne_newline (by omega)⟩
  · exact ⟨ofNat_ne_newline (by omega), ofNat_ne_newline (by omega),
      ofNat_ne_newline (by omega), ofNat_ne_newline (by omega)⟩

/-- Puts something before the first of several lines. -/
def extendHead {α : Type} (front : List α) : List (List α) → List (List α)
  | line :: lines => (front ++ line) :: lines
  | [] => [front]

theorem flatten_extendHead {α : Type} (front : List α) (lines : List (List α)) :
    (extendHead front lines).flatten = front ++ lines.flatten := by
  cases lines with
  | nil => rw [extendHead, List.flatten_cons]
  | cons line lines =>
    rw [extendHead, List.flatten_cons, List.flatten_cons, List.append_assoc]

theorem ne_nil_of_mem_extendHead {α : Type} {front line : List α} {lines : List (List α)}
    (hfront : front ≠ []) (hlines : ∀ l ∈ lines, l ≠ []) (h : line ∈ extendHead front lines) :
    line ≠ [] := by
  cases lines with
  | nil =>
    obtain rfl := List.mem_singleton.mp h
    exact hfront
  | cons first lines =>
    rcases List.mem_cons.mp h with rfl | h
    · exact List.append_ne_nil_of_left_ne_nil hfront first
    · exact hlines line (List.mem_cons_of_mem first h)

theorem cutLines_newline (bytes : List UInt8) : cutLines (10 :: bytes) = [10] :: cutLines bytes :=
  rfl

theorem cutLines_cons {b : UInt8} (h : b ≠ 10) (bytes : List UInt8) :
    cutLines (b :: bytes) = extendHead [b] (cutLines bytes) := by
  unfold cutLines
  rw [List.foldr_cons, if_neg h]
  split
  · rename_i hlines
    rw [hlines]
    rfl
  · rename_i hlines
    rw [hlines]
    rfl

theorem cutLines_append {front : List UInt8} (hfront : front ≠ []) (h : 10 ∉ front)
    (bytes : List UInt8) : cutLines (front ++ bytes) = extendHead front (cutLines bytes) := by
  induction front with
  | nil => exact absurd rfl hfront
  | cons b front ih =>
    rw [List.mem_cons, not_or] at h
    rw [List.cons_append, cutLines_cons (Ne.symm h.1)]
    cases front with
    | nil => rfl
    | cons b' front =>
      rw [ih (List.cons_ne_nil b' front) h.2]
      cases cutLines bytes <;> rfl

/-- Cutting the spelling of a text is cutting the text. -/
theorem cutLines_bytesOf (cs : List Char) :
    ∃ lines : List (List Char), cutLines (bytesOf cs) = lines.map bytesOf ∧
      lines.flatten = cs ∧ ∀ line ∈ lines, line ≠ [] := by
  induction cs with
  | nil => exact ⟨[], rfl, rfl, by simp⟩
  | cons c cs ih =>
    obtain ⟨lines, hcut, hflatten, hlines⟩ := ih
    by_cases hnewline : c = '\n'
    · refine ⟨['\n'] :: lines, ?_, ?_, ?_⟩
      · have hbytes : bytesOf ('\n' :: cs) = 10 :: bytesOf cs := rfl
        rw [hnewline, hbytes, cutLines_newline, hcut]
        rfl
      · rw [List.flatten_cons, hflatten, hnewline]
        rfl
      · intro line hline
        rcases List.mem_cons.mp hline with rfl | hline
        · exact List.cons_ne_nil _ _
        · exact hlines line hline
    · refine ⟨extendHead [c] lines, ?_, ?_, ?_⟩
      · rw [bytesOf_cons, cutLines_append String.utf8EncodeChar_ne_nil (newline_not_mem hnewline),
          hcut]
        cases lines with
        | nil => exact congrArg (fun bytes => [bytes]) (List.append_nil _).symm
        | cons line lines => exact congrArg (· :: lines.map bytesOf) (bytesOf_cons c line).symm
      · rw [flatten_extendHead, hflatten]
        rfl
      · exact fun line hline =>
          ne_nil_of_mem_extendHead (List.cons_ne_nil c []) hlines hline

theorem ofBytes_bytesOf {line : List Char} (h : line ≠ []) :
    Line.ofBytes (bytesOf line) = .text (String.ofList line) := by
  have hbytes : (⟨(bytesOf line).toArray⟩ : ByteArray) = (String.ofList line).toByteArray :=
    ByteArray.ext List.data_toByteArray.symm
  have hempty : (bytesOf line).isEmpty = false := by
    cases line with
    | nil => exact absurd rfl h
    | cons c cs =>
      rw [bytesOf_cons, List.isEmpty_eq_false_iff]
      exact List.append_ne_nil_of_left_ne_nil String.utf8EncodeChar_ne_nil (bytesOf cs)
  have hdecode : String.fromUTF8? ⟨(bytesOf line).toArray⟩ = some (String.ofList line) := by
    rw [hbytes]
    exact dif_pos (String.ofList line).isValidUTF8
  rw [Line.ofBytes, hempty, if_neg Bool.false_ne_true, hdecode]

/-- The lines of a standard input that is a text are the pieces of this text. -/
theorem linesOf_toUTF8 (text : String) :
    ∃ lines : List String, linesOf text.toUTF8 = lines.map Line.text ∧
      lines.flatMap String.toList = text.toList := by
  have hbytes : text.toUTF8.data.toList = bytesOf text.toList := by
    have hencode : text.toUTF8 = (bytesOf text.toList).toByteArray :=
      String.utf8Encode_toList.symm
    rw [hencode, List.toList_data_toByteArray]
  obtain ⟨lines, hcut, hflatten, hlines⟩ := cutLines_bytesOf text.toList
  refine ⟨lines.map String.ofList, ?_, ?_⟩
  · rw [linesOf, hbytes, hcut, List.map_map, List.map_map]
    exact List.map_congr_left fun line hline => ofBytes_bytesOf (hlines line hline)
  · rw [List.flatMap_map, ← hflatten, ← List.flatMap_id']
    simp only [String.toList_ofList]

end Fish.Cli
