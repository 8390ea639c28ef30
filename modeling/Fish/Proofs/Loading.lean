import Fish.Proofs.Bounds

/-!
Loading gives back the rows that were written. Cutting a text at its newlines undoes joining its
rows by newlines, as long as no row is changed on the way: none ends in a carriage return, and the
last one is not left out for being empty. The codebox is as high as there are rows and as wide as
the longest of them, so that whatever is stored lies within.
-/

namespace Fish

namespace Codebox

theorem lines_ne_nil (source : List Char) : lines source ≠ [] := by
  intro h
  have hlength := length_lines source
  rw [h] at hlength
  cases hlength

theorem lines_eq_splitOn (source : List Char) : lines source = source.splitOn '\n' := by
  induction source with
  | nil => rfl
  | cons c source ih =>
    rw [List.splitOn_eq_splitOnP, List.splitOnP_cons_eq_if_modifyHead, ← List.splitOn_eq_splitOnP,
      ← ih]
    by_cases hnewline : c = '\n'
    · rw [hnewline, lines_newline, if_pos (beq_self_eq_true '\n')]
    · rw [if_neg (by simpa using hnewline)]
      cases hrows : lines source with
      | nil => exact absurd hrows (lines_ne_nil source)
      | cons row rest => rw [lines_cons hnewline hrows, List.modifyHead_cons]

theorem lines_intercalate {rows : List (List Char)} (hne : rows ≠ [])
    (hnewline : ∀ row ∈ rows, '\n' ∉ row) : lines (['\n'].intercalate rows) = rows := by
  rw [lines_eq_splitOn, List.splitOn_intercalate '\n' hnewline hne]

theorem map_dropReturn {rows : List (List Char)}
    (hreturn : ∀ row ∈ rows, row.getLast? ≠ some '\r') : rows.map dropReturn = rows := by
  have hsame : ∀ row ∈ rows, dropReturn row = id row := fun row hrow => if_neg (hreturn row hrow)
  rw [List.map_congr_left hsame, List.map_id]

theorem rowsOf_intercalate {rows : List (List Char)} (hne : rows ≠ [])
    (hnewline : ∀ row ∈ rows, '\n' ∉ row) (hreturn : ∀ row ∈ rows, row.getLast? ≠ some '\r')
    (hlast : rows.length = 1 ∨ rows.getLast? ≠ some []) :
    rowsOf (String.ofList (['\n'].intercalate rows)) = rows := by
  rw [rowsOf, String.toList_ofList, lines_intercalate hne hnewline, map_dropReturn hreturn,
    dropTrailing, if_neg]
  rintro ⟨hseveral, hempty⟩
  rcases hlast with hone | hwritten
  · omega
  · exact hwritten hempty

theorem height_ofRows {rows : List (List Char)} (hne : rows ≠ []) :
    (ofRows rows).height = rows.length :=
  Nat.max_eq_right (List.length_pos_iff.mpr hne)

theorem width_ofRows (rows : List (List Char)) :
    (ofRows rows).width = max 1 ((rows.map List.length).max?.getD 0) := by
  have hwidth : (ofRows rows).width = (rows.map List.length).foldl max 1 := rfl
  rw [hwidth, List.foldl_max]
  cases (rows.map List.length).max? <;> rfl

theorem stored?_ofRows (rows : List (List Char)) (x y : Nat) :
    (ofRows rows).stored? x y = rows[y]?.bind fun row => row[x]? := by
  simp only [stored?, ofRows, List.getElem?_toArray, List.getElem?_map, Option.bind_map,
    Function.comp_def]

/-- A cell that was written lies within the codebox. -/
theorem lt_of_stored? {rows : List (List Char)} {x y : Nat} {c : Char}
    (h : (ofRows rows).stored? x y = some c) :
    x < (ofRows rows).width ∧ y < (ofRows rows).height := by
  rw [stored?_ofRows] at h
  obtain ⟨row, hrow, hc⟩ := Option.bind_eq_some_iff.mp h
  obtain ⟨hy, -⟩ := List.getElem?_eq_some_iff.mp hrow
  obtain ⟨hx, -⟩ := List.getElem?_eq_some_iff.mp hc
  have hlength : row.length ≤ (rows.map List.length).max?.getD 0 :=
    List.le_max?_getD_of_mem (List.mem_map_of_mem (List.mem_of_getElem? hrow))
  have hheight : (ofRows rows).height = max 1 rows.length := rfl
  rw [width_ofRows, hheight]
  omega

/-- Loading gives back the rows that were written, joined by newlines: the codebox has as many rows
and is as wide as the longest, a cell is stored where a row has a character, and it reads as a space
elsewhere. Every codebox that was loaded has a cell, and it has all that are stored within it. -/
theorem rows_read_back :
    (∀ rows : List (List Char), rows ≠ [] → (∀ row ∈ rows, '\n' ∉ row) →
      (∀ row ∈ rows, row.getLast? ≠ some '\r') → (rows.length = 1 ∨ rows.getLast? ≠ some []) →
      let box := ofSource (String.ofList (['\n'].intercalate rows))
      box.height = rows.length ∧ box.width = max 1 ((rows.map List.length).max?.getD 0) ∧
      ∀ x y : Nat, box.stored? x y = (rows[y]?.bind fun row => row[x]?) ∧
        box.charAt x y = (rows[y]?.bind fun row => row[x]?).getD ' ') ∧
    ∀ source : String,
      let box := ofSource source
      1 ≤ box.width ∧ 1 ≤ box.height ∧
      ∀ (x y : Nat) (c : Char), box.stored? x y = some c → x < box.width ∧ y < box.height := by
  constructor
  · intro rows hne hnewline hreturn hlast box
    have hbox : box = ofRows rows :=
      congrArg ofRows (rowsOf_intercalate hne hnewline hreturn hlast)
    rw [hbox]
    refine ⟨height_ofRows hne, width_ofRows rows, fun x y => ?_⟩
    rw [charAt, stored?_ofRows]
    exact ⟨rfl, rfl⟩
  · intro source box
    exact ⟨box.width_pos, box.height_pos, fun x y c => lt_of_stored?⟩

/-- Rows of different lengths, one of them empty, and a carriage return within a row. -/
theorem rows_read_back_ragged :
    let rows := [['>', '1'], [], ['\r', 'é', '^', ';'], ['n']]
    let box := ofSource (String.ofList (['\n'].intercalate rows))
    (rows ≠ [] ∧ (∀ row ∈ rows, '\n' ∉ row) ∧ (∀ row ∈ rows, row.getLast? ≠ some '\r') ∧
      rows.getLast? ≠ some []) ∧
    box.height = 4 ∧ box.width = 4 ∧ box.stored? 1 2 = some 'é' ∧ box.stored? 0 1 = none ∧
    box.charAt 0 1 = ' ' := by
  intro rows box
  have hne : rows ≠ [] := by decide
  have hnewline : ∀ row ∈ rows, '\n' ∉ row := by decide
  have hreturn : ∀ row ∈ rows, row.getLast? ≠ some '\r' := by decide
  have hlast : rows.getLast? ≠ some [] := by decide
  obtain ⟨hheight, hwidth, hcells⟩ := rows_read_back.1 rows hne hnewline hreturn (.inr hlast)
  refine ⟨⟨hne, hnewline, hreturn, hlast⟩, hheight, hwidth, ?_, ?_, ?_⟩
  · exact (hcells 1 2).1
  · exact (hcells 0 1).1
  · exact (hcells 0 1).2

end Codebox

end Fish
