import Fish.Proofs.Loading

/-!
Ends of lines. A text is a line, or a line with a newline behind it and another text, and it is cut
into the lines of both. So it makes no difference to the codebox whether carriage returns stand
before the newlines, unless there were some already. A newline at the very end makes none either,
except behind a last line that is a carriage return and nothing else: such a line counts as empty
and is left out, and once it is ended it is a row.
-/

namespace Fish

namespace Codebox

theorem lines_append_newline (front back : List Char) :
    lines (front ++ '\n' :: back) = lines front ++ lines back := by
  simp only [lines_eq_splitOn, List.splitOn_eq_splitOnP]
  exact List.splitOnP_append_cons front back (beq_self_eq_true '\n')

theorem lines_of_notMem {line : List Char} (h : '\n' ∉ line) : lines line = [line] := by
  rw [lines_eq_splitOn, List.splitOn_eq_splitOnP]
  exact List.splitOnP_eq_singleton fun c hc => beq_eq_false_iff_ne.mpr fun heq => h (heq ▸ hc)

/-- Induction over the lines of a text. -/
@[elab_as_elim]
theorem linewise {P : List Char → Prop} (single : ∀ line, '\n' ∉ line → P line)
    (followed : ∀ line rest, '\n' ∉ line → P rest → P (line ++ '\n' :: rest))
    (source : List Char) : P source := by
  by_cases h : '\n' ∈ source
  · obtain ⟨line, rest, hsource, hline⟩ := List.eq_append_cons_of_mem h
    rw [hsource]
    exact followed line rest hline (linewise single followed rest)
  · exact single source h
termination_by source.length
decreasing_by
  rw [hsource, List.length_append, List.length_cons]
  omega

theorem exists_last_line {source : List Char} (h : '\n' ∈ source) :
    ∃ front last, source = front ++ '\n' :: last ∧ '\n' ∉ last := by
  obtain ⟨last, front, hsource, hlast⟩ :=
    List.eq_append_cons_of_mem (List.mem_reverse.mpr h)
  refine ⟨front.reverse, last.reverse, ?_, fun hmem => hlast (List.mem_reverse.mp hmem)⟩
  rw [← List.reverse_reverse source, hsource, List.reverse_append, List.reverse_cons,
    List.append_assoc, List.singleton_append]

theorem dropReturn_concat (line : List Char) : dropReturn (line ++ ['\r']) = line := by
  rw [dropReturn, if_pos List.getLast?_concat, List.dropLast_concat]

theorem dropReturn_eq_nil {line : List Char} : dropReturn line = [] ↔ line = [] ∨ line = ['\r'] := by
  constructor
  · intro h
    unfold dropReturn at h
    split at h
    · rename_i hreturn
      obtain ⟨front, rfl⟩ := List.getLast?_eq_some_iff.mp hreturn
      rw [List.dropLast_concat] at h
      exact .inr (congrArg (· ++ ['\r']) h)
    · exact .inl h
  · rintro (rfl | rfl) <;> rfl

section Returns

/-- A carriage return put before every newline. -/
def returned (source : List Char) : List Char :=
  source.flatMap fun c => if c = '\n' then ['\r', '\n'] else [c]

def withReturns (source : String) : String := String.ofList (returned source.toList)

theorem returned_append (front back : List Char) :
    returned (front ++ back) = returned front ++ returned back := List.flatMap_append

theorem returned_of_notMem {line : List Char} (h : '\n' ∉ line) : returned line = line := by
  induction line with
  | nil => rfl
  | cons c line ih =>
    rw [List.mem_cons, not_or] at h
    have hc : (if c = '\n' then ['\r', '\n'] else [c]) = [c] := if_neg (Ne.symm h.1)
    rw [returned, List.flatMap_cons, hc, ← returned, ih h.2, List.singleton_append]

/-- A line before a newline gets a carriage return behind it. -/
theorem lines_returned_followed {line : List Char} (h : '\n' ∉ line) (rest : List Char) :
    lines (returned (line ++ '\n' :: rest)) = (line ++ ['\r']) :: lines (returned rest) := by
  have hreturned : returned (line ++ '\n' :: rest) = (line ++ ['\r']) ++ '\n' :: returned rest := by
    rw [returned_append, returned_of_notMem h, List.append_assoc]
    rfl
  have hline : '\n' ∉ line ++ ['\r'] := by simpa using h
  rw [hreturned, lines_append_newline, lines_of_notMem hline, List.singleton_append]

/-- The carriage returns put in are those that are dropped again. -/
theorem map_dropReturn_lines_returned {source : List Char} (h : ¬ ['\r', '\n'] <:+: source) :
    (lines (returned source)).map dropReturn = (lines source).map dropReturn := by
  induction source using linewise with
  | single line hline => rw [returned_of_notMem hline]
  | followed line rest hline ih =>
    have hrest : ¬ ['\r', '\n'] <:+: rest := fun hwithin =>
      h (hwithin.trans ⟨line ++ ['\n'], [], by simp⟩)
    have hreturn : line.getLast? ≠ some '\r' := by
      intro hlast
      obtain ⟨front, rfl⟩ := List.getLast?_eq_some_iff.mp hlast
      exact h ⟨front, rest, by simp⟩
    have hkept : dropReturn line = line := if_neg hreturn
    rw [lines_returned_followed hline, lines_append_newline, lines_of_notMem hline,
      List.singleton_append, List.map_cons, List.map_cons, dropReturn_concat, hkept, ih hrest]

theorem rowsOf_withReturns {source : String} (h : ¬ ['\r', '\n'] <:+: source.toList) :
    rowsOf (withReturns source) = rowsOf source := by
  rw [rowsOf, withReturns, String.toList_ofList, map_dropReturn_lines_returned h, rowsOf]

example : withReturns "12\n\n;\n" = "12\r\n\r\n;\r\n" ∧
    rowsOf "12\r\n\r\n;\r\n" = rowsOf "12\n\n;\n" := by
  decide

end Returns

section Newline

/-- The newline begins a line of its own, which is left out. -/
theorem rowsOf_newline (source : String) :
    rowsOf (source ++ "\n") = (lines source.toList).map dropReturn := by
  have hlines : lines (source ++ "\n").toList = lines source.toList ++ [[]] := by
    rw [String.toList_append]
    exact lines_append_newline source.toList []
  have hpos := List.length_pos_iff.mpr (lines_ne_nil source.toList)
  rw [rowsOf, hlines, List.map_append, dropTrailing, if_pos]
  · exact List.dropLast_concat
  · refine ⟨?_, List.getLast?_concat⟩
    rw [List.length_append, List.length_map]
    exact Nat.lt_add_of_pos_left hpos

/-- Without a newline at the end, the row that is left out is a carriage return behind others. -/
theorem trailing_iff {source : List Char} (h : source.getLast? ≠ some '\n') :
    (1 < ((lines source).map dropReturn).length ∧
      ((lines source).map dropReturn).getLast? = some []) ↔ ['\n', '\r'] <:+ source := by
  by_cases hnewline : '\n' ∈ source
  · obtain ⟨front, last, rfl, hlast⟩ := exists_last_line hnewline
    have hpos := List.length_pos_iff.mpr (lines_ne_nil front)
    have hne : last ≠ [] := by
      rintro rfl
      exact h List.getLast?_concat
    rw [lines_append_newline, lines_of_notMem hlast, List.map_append, List.map_singleton,
      List.getLast?_concat, Option.some_inj, dropReturn_eq_nil, List.length_append, List.length_map]
    constructor
    · rintro ⟨-, hempty | rfl⟩
      · exact absurd hempty hne
      · exact List.suffix_append front ['\n', '\r']
    · rintro ⟨front', hsource⟩
      have hlines := congrArg lines hsource
      rw [lines_append_newline, lines_append_newline, lines_of_notMem hlast,
        lines_of_notMem (by decide : '\n' ∉ ['\r'])] at hlines
      have hreturn : ['\r'] = last := List.singleton_inj.mp (List.append_inj' hlines rfl).2
      exact ⟨Nat.lt_add_of_pos_left hpos, .inr hreturn.symm⟩
  · rw [lines_of_notMem hnewline]
    refine iff_of_false (fun hlong => absurd hlong.1 (by simp)) fun hsuffix => ?_
    exact hnewline (hsuffix.subset List.mem_cons_self)

/-- An empty row at the end has no cells, and takes only its place. -/
theorem ofRows_concat_nil {rows : List (List Char)} (hne : rows ≠ []) :
    (ofRows (rows ++ [[]])).width = (ofRows rows).width ∧
      (ofRows (rows ++ [[]])).height = (ofRows rows).height + 1 ∧
      ∀ x y, (ofRows (rows ++ [[]])).stored? x y = (ofRows rows).stored? x y := by
  refine ⟨?_, ?_, fun x y => ?_⟩
  · have hwidth : (ofRows (rows ++ [[]])).width =
        ((rows ++ [[]]).map List.length).foldl max 1 := rfl
    rw [hwidth, List.map_append, List.foldl_append]
    exact Nat.max_zero _
  · rw [height_ofRows hne, height_ofRows (List.append_ne_nil_of_left_ne_nil hne [[]]),
      List.length_append, List.length_singleton]
  · rw [stored?_ofRows, stored?_ofRows, List.getElem?_append]
    split
    · rfl
    · rename_i hy
      rw [List.getElem?_eq_none (Nat.le_of_not_lt hy)]
      cases y - rows.length <;> rfl

/-- Where no row is left out before the newline, the newline makes no difference. -/
theorem ofSource_newline {source : String} (h : source.toList.getLast? ≠ some '\n')
    (hreturn : ¬ ['\n', '\r'] <:+ source.toList) :
    ofSource (source ++ "\n") = ofSource source := by
  rw [ofSource, rowsOf_newline, ofSource, rowsOf, dropTrailing,
    if_neg fun htrailing => hreturn ((trailing_iff h).mp htrailing)]

/-- The row that is left out before the newline is there behind it. -/
theorem rowsOf_newline_of_return {source : String} (h : source.toList.getLast? ≠ some '\n')
    (hreturn : ['\n', '\r'] <:+ source.toList) :
    rowsOf source ≠ [] ∧ rowsOf (source ++ "\n") = rowsOf source ++ [[]] := by
  have htrailing := (trailing_iff h).mpr hreturn
  have hrows : rowsOf source = ((lines source.toList).map dropReturn).dropLast := by
    rw [rowsOf, dropTrailing, if_pos htrailing]
  obtain ⟨front, hfront⟩ := List.getLast?_eq_some_iff.mp htrailing.2
  rw [hfront, List.dropLast_concat] at hrows
  refine ⟨?_, by rw [rowsOf_newline, hfront, hrows]⟩
  have hlength := htrailing.1
  rw [hfront, List.length_append, List.length_singleton] at hlength
  exact hrows ▸ List.length_pos_iff.mp (Nat.pos_of_lt_add_left hlength)

end Newline

/-- Line endings do not matter: with a carriage return before every newline, a text that had none
there makes the same rows, the same codebox and the same program. -/
theorem returns_before_newlines (source : String) (h : ¬ ['\r', '\n'] <:+: source.toList) :
    rowsOf (withReturns source) = rowsOf source ∧
    ofSource (withReturns source) = ofSource source ∧
    ∀ (values : List Value) (seed : UInt64) (calls : List Call),
      (Program.load (withReturns source) values seed).replay calls =
        (Program.load source values seed).replay calls := by
  have hrows := rowsOf_withReturns h
  have hbox : ofSource (withReturns source) = ofSource source := congrArg ofRows hrows
  refine ⟨hrows, hbox, fun values seed calls => ?_⟩
  rw [Program.load, hbox, Program.load]

/-- An empty row, a carriage return within a row and one at the end. -/
theorem returns_before_newlines_ragged :
    let source := "v\n\n1\r;\n\r"
    ¬ ['\r', '\n'] <:+: source.toList ∧
    withReturns source = "v\r\n\r\n1\r;\r\n\r" ∧
    rowsOf (withReturns source) = [['v'], [], ['1', '\r', ';']] := by
  intro source
  have h : ¬ ['\r', '\n'] <:+: source.toList := by simp [source, List.infix_cons_iff]
  obtain ⟨hrows, -, -⟩ := returns_before_newlines source h
  refine ⟨h, by decide, ?_⟩
  rw [hrows]
  decide

/-- A newline behind a text that does not end in one makes no difference, unless the last line is a
carriage return and nothing else. Such a line counts as empty, and the newline makes it a row. -/
theorem newline_at_end (source : String) (h : source.toList.getLast? ≠ some '\n') :
    let box := ofSource source
    let ended := ofSource (source ++ "\n")
    ended.width = box.width ∧
    (∀ x y : Nat, ended.stored? x y = box.stored? x y) ∧
    ended.height = box.height + (if ['\n', '\r'] <:+ source.toList then 1 else 0) ∧
    (¬ ['\n', '\r'] <:+ source.toList → ended = box ∧
      ∀ (values : List Value) (seed : UInt64) (calls : List Call),
        (Program.load (source ++ "\n") values seed).replay calls =
          (Program.load source values seed).replay calls) := by
  intro box ended
  by_cases hreturn : ['\n', '\r'] <:+ source.toList
  · obtain ⟨hne, hrows⟩ := rowsOf_newline_of_return h hreturn
    have hended : ended = ofRows (rowsOf source ++ [[]]) := congrArg ofRows hrows
    obtain ⟨hwidth, hheight, hstored⟩ := ofRows_concat_nil hne
    rw [hended, if_pos hreturn]
    exact ⟨hwidth, hstored, hheight, fun hnot => absurd hreturn hnot⟩
  · have hbox : ended = box := ofSource_newline h hreturn
    rw [hbox, if_neg hreturn, Nat.add_zero]
    refine ⟨rfl, fun _ _ => rfl, rfl, fun _ => ⟨rfl, fun values seed calls => ?_⟩⟩
    have hload : ofSource (source ++ "\n") = ofSource source := hbox
    rw [Program.load, hload, Program.load]

/-- A last line that ends in a carriage return, but is not one alone. -/
theorem newline_at_end_returned :
    let source := "v\r\n;\r"
    source.toList.getLast? ≠ some '\n' ∧ ¬ ['\n', '\r'] <:+ source.toList ∧
    (ofSource (source ++ "\n")).height = (ofSource source).height ∧
    ∀ (values : List Value) (seed : UInt64) (calls : List Call),
      (Program.load (source ++ "\n") values seed).replay calls =
        (Program.load source values seed).replay calls := by
  intro source
  have h : source.toList.getLast? ≠ some '\n' := by decide
  have hreturn : ¬ ['\n', '\r'] <:+ source.toList := by decide
  obtain ⟨-, -, hheight, hsame⟩ := newline_at_end source h
  rw [if_neg hreturn, Nat.add_zero] at hheight
  exact ⟨h, hreturn, hheight, (hsame hreturn).2⟩

/-- Behind a carriage return that is a line of its own, the newline adds a row, and a pointer that
goes down meets it. -/
theorem newline_at_end_lone_return :
    let source := "v\n\r"
    source.toList.getLast? ≠ some '\n' ∧
    (ofSource source).height = 1 ∧ (ofSource (source ++ "\n")).height = 2 ∧
    (Program.load source [] 0).advance.2.state.pointer.y = 0 ∧
    (Program.load (source ++ "\n") [] 0).advance.2.state.pointer.y = 1 := by
  decide

end Codebox

end Fish
