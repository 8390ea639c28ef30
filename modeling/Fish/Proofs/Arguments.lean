import Fish.Cli.Options

/-!
Arguments that say nothing of the input. Put behind others, they are taken in as if they stood
alone, and leave alone what the others have said of the input.
-/

namespace Fish.Cli

namespace Options

/-- The options with another input and another word on standard input. -/
def hear (input? : Option String) (stdin : Bool) (o : Options) : Options :=
  { o with input? := input?, stdin := stdin }

/-- If the outcome has nothing on the input, so had the options before, and with any other
input the outcome is the same but for this. -/
def Quiet (change : Options → Except Refusal Options) : Prop :=
  ∀ o o', change o = .ok o' → o'.input? = none → o'.stdin = false →
    (o.input? = none ∧ o.stdin = false) ∧
      ∀ input? stdin, change (o.hear input? stdin) = .ok (o'.hear input? stdin)

theorem quiet_error (e : Refusal) : Quiet fun _ => .error e := by
  intro o o' h
  cases h

theorem quiet_ok {change : Options → Options} (hinput : ∀ o, (change o).input? = o.input?)
    (hstdin : ∀ o, (change o).stdin = o.stdin)
    (hhear : ∀ o input? stdin, change (o.hear input? stdin) = (change o).hear input? stdin) :
    Quiet fun o => .ok (change o) := by
  intro o o' h hnone hfalse
  cases h
  refine ⟨⟨(hinput o).symm.trans hnone, (hstdin o).symm.trans hfalse⟩, fun input? stdin => ?_⟩
  exact congrArg Except.ok (hhear o input? stdin)

theorem Quiet.bind {first next : Options → Except Refusal Options} (hfirst : Quiet first)
    (hnext : Quiet next) : Quiet fun o => first o >>= next := by
  intro o o'' h hnone hfalse
  cases hchange : first o with
  | error e =>
    simp only [hchange] at h
    cases h
  | ok o' =>
    simp only [hchange] at h
    obtain ⟨⟨hnone', hfalse'⟩, hhear'⟩ := hnext o' o'' h hnone hfalse
    obtain ⟨hbefore, hhear⟩ := hfirst o o' hchange hnone' hfalse'
    refine ⟨hbefore, fun input? stdin => ?_⟩
    simp only [hhear]
    exact hhear' input? stdin

/-- Taking in a value of another option than the input. -/
theorem quiet_map {α : Type} {text value : String} {parsed : Option α}
    {field : Options → Option α} {put : Option α → Options → Options}
    (hfield : ∀ o input? stdin, field (o.hear input? stdin) = field o)
    (hinput : ∀ a o, (put a o).input? = o.input?) (hstdin : ∀ a o, (put a o).stdin = o.stdin)
    (hhear : ∀ a o input? stdin, put a (o.hear input? stdin) = (put a o).hear input? stdin) :
    Quiet fun o => (setOnce text value (field o) parsed).map fun a => put a o := by
  intro o o' h hnone hfalse
  cases hset : setOnce text value (field o) parsed with
  | error e =>
    simp only [hset] at h
    cases h
  | ok a =>
    simp only [hset] at h
    cases h
    refine ⟨⟨(hinput a o).symm.trans hnone, (hstdin a o).symm.trans hfalse⟩, ?_⟩
    intro input? stdin
    simp only [hfield, hset, Except.map, hhear]

theorem quiet_set (name : OptionName) (text value : String) :
    Quiet fun o => o.set name text value := by
  cases name with
  | stack =>
    cases hvalues : values? value with
    | none => simpa only [set, hvalues] using quiet_error _
    | some values =>
      simp only [set, hvalues]
      exact quiet_ok (fun _ => rfl) (fun _ => rfl) (fun _ _ _ => rfl)
  | seed =>
    exact quiet_map (fun _ _ _ => rfl) (fun _ _ => rfl) (fun _ _ => rfl) (fun _ _ _ _ => rfl)
  | stepLimit =>
    exact quiet_map (fun _ _ _ => rfl) (fun _ _ => rfl) (fun _ _ => rfl) (fun _ _ _ _ => rfl)
  | stepsPerBatch =>
    exact quiet_map (fun _ _ _ => rfl) (fun _ _ => rfl) (fun _ _ => rfl) (fun _ _ _ _ => rfl)
  | delay =>
    exact quiet_map (fun _ _ _ => rfl) (fun _ _ => rfl) (fun _ _ => rfl) (fun _ _ _ _ => rfl)
  | input =>
    intro o o' h hnone
    have hset : (setOnce text value o.input? (some value)).map
        (fun input => { o with input? := input }) = .ok o' := h
    unfold setOnce at hset
    by_cases hgiven : o.input?.isSome = true
    · rw [if_pos hgiven] at hset
      cases hset
    · rw [if_neg hgiven, if_neg (by simp)] at hset
      cases hset
      cases hnone
  | stdin => exact quiet_error _
  | trace => exact quiet_error _
  | help => exact quiet_error _

theorem quiet_raise (name : OptionName) (text : String) : Quiet fun o => o.raise name text := by
  intro o o' h hnone hfalse
  cases name with
  | stdin =>
    by_cases hgiven : o.stdin = true
    · simp only [raise, if_pos hgiven] at h
      cases h
    · simp only [raise, if_neg hgiven] at h
      cases h
      cases hfalse
  | trace =>
    by_cases hgiven : o.trace = true
    · simp only [raise, if_pos hgiven] at h
      cases h
    · simp only [raise, if_neg hgiven] at h
      cases h
      refine ⟨⟨hnone, hfalse⟩, fun input? stdin => ?_⟩
      exact if_neg hgiven
  | _ => cases h

theorem quiet_addFile (path : String) : Quiet fun o => o.addFile path := by
  by_cases hempty : path.isEmpty = true
  · simp only [addFile, if_pos hempty]
    exact quiet_error _
  · simp only [addFile, if_neg hempty]
    exact quiet_ok (fun _ => rfl) (fun _ => rfl) (fun _ _ _ => rfl)

theorem quiet_addFiles (paths : List String) : Quiet fun o => o.addFiles paths := by
  induction paths with
  | nil => exact quiet_ok (fun _ => rfl) (fun _ => rfl) (fun _ _ _ => rfl)
  | cons path paths ih =>
    simp only [addFiles, List.foldlM_cons]
    exact (quiet_addFile path).bind ih

theorem addArgs_of_option {arg text : String} {value? : Option String}
    (hshape : shapeOf arg = .option text value?) (rest : List String) :
    ∃ change more, Quiet change ∧ more.length ≤ rest.length ∧
      ∀ o, addArgs (arg :: rest) o = change o >>= addArgs more := by
  cases hname : OptionName.ofText? text with
  | none =>
    refine ⟨_, rest, quiet_error (.unknownOption text), Nat.le_refl _, fun o => ?_⟩
    simp only [addArgs, hshape, hname]
    rfl
  | some name =>
    cases value? with
    | some value =>
      refine ⟨_, rest, quiet_set name text value, Nat.le_refl _, fun o => ?_⟩
      simp only [addArgs, hshape, hname]
    | none =>
      by_cases htakes : name.takesValue = true
      · cases rest with
        | nil =>
          refine ⟨_, [], quiet_error (.missingValue text), Nat.le_refl _, fun o => ?_⟩
          simp only [addArgs, hshape, hname, if_pos htakes]
          rfl
        | cons value rest =>
          by_cases haccepts : name.accepts value = true
          · refine ⟨_, rest, quiet_set name text value, Nat.le_succ _, fun o => ?_⟩
            simp only [addArgs, hshape, hname, if_pos htakes, if_pos haccepts]
          · refine ⟨_, rest, quiet_error (.missingValue text), Nat.le_succ _, fun o => ?_⟩
            simp only [addArgs, hshape, hname, if_pos htakes, if_neg haccepts]
            rfl
      · refine ⟨_, rest, quiet_raise name text, Nat.le_refl _, fun o => ?_⟩
        simp only [addArgs, hshape, hname, if_neg htakes]

/-- An argument, perhaps with the next one as its value, is taken in before the others. -/
theorem addArgs_cons (arg : String) (rest : List String) :
    ∃ change more, Quiet change ∧ more.length ≤ rest.length ∧
      ∀ o, addArgs (arg :: rest) o = change o >>= addArgs more := by
  cases hshape : shapeOf arg with
  | word =>
    refine ⟨_, rest, quiet_addFile arg, Nat.le_refl _, fun o => ?_⟩
    simp only [addArgs, hshape]
  | separator =>
    refine ⟨_, [], quiet_addFiles rest, Nat.zero_le _, fun o => ?_⟩
    simp only [addArgs, hshape]
    cases o.addFiles rest <;> rfl
  | option text value? => exact addArgs_of_option hshape rest

theorem quiet_addArgs (args : List String) : Quiet (addArgs args) := by
  induction hlength : args.length using Nat.strongRecOn generalizing args with
  | ind n ih =>
    cases args with
    | nil => exact quiet_ok (fun _ => rfl) (fun _ => rfl) (fun _ _ _ => rfl)
    | cons arg rest =>
      obtain ⟨change, more, hchange, hmore, heq⟩ := addArgs_cons arg rest
      rw [List.length_cons] at hlength
      rw [funext heq]
      exact hchange.bind (ih more.length (by omega) more rfl)

theorem shapeOf_input (text : String) :
    shapeOf ("--input=" ++ text) = .option "--input" (some text) := by
  have hlist : ("--input=" ++ text).toList =
      '-' :: '-' :: 'i' :: 'n' :: 'p' :: 'u' :: 't' :: '=' :: text.toList := by
    rw [String.toList_append]
    rfl
  simp [shapeOf, hlist]

theorem addArgs_input (text : String) (args : List String) :
    addArgs (("--input=" ++ text) :: args) {} =
      addArgs args (hear (some text) false {}) := by
  rw [addArgs, shapeOf_input]
  rfl

theorem addArgs_stdin (text : String) (args : List String) :
    addArgs ("--stdin" :: args) (hear (some text) false {}) =
      addArgs args (hear (some text) true {}) := by
  have hshape : shapeOf "--stdin" = .option "--stdin" none := by decide
  rw [addArgs, hshape]
  rfl

theorem ofArgs_eq_ok {args : List String} {o : Options} :
    ofArgs args = .ok o ↔ addArgs args {} = .ok o ∧ o.files ≠ [] := by
  have hof : ofArgs args = addArgs args {} >>= fun o =>
      if o.files.isEmpty then .error .noFile else .ok o := by
    unfold ofArgs
    refine bind_congr fun o => ?_
    cases o.files.isEmpty <;> rfl
  rw [hof]
  cases hargs : addArgs args {} with
  | error e =>
    constructor
    · intro h
      cases h
    · intro h
      obtain ⟨h, -⟩ := h
      cases h
  | ok o' =>
    have hbind : ((Except.ok o' : Except Refusal Options) >>= fun o =>
        if o.files.isEmpty then .error .noFile else .ok o) =
          if o'.files.isEmpty then .error .noFile else .ok o' := rfl
    rw [hbind]
    by_cases hfiles : o'.files = []
    · rw [if_pos (by simp [hfiles])]
      constructor
      · intro h
        cases h
      · intro h
        obtain ⟨h, hne⟩ := h
        cases h
        exact absurd hfiles hne
    · rw [if_neg (by simpa using hfiles)]
      constructor
      · intro h
        refine ⟨h, ?_⟩
        cases h
        exact hfiles
      · exact And.left

/-- Arguments on the input in front of others that say nothing of it. -/
theorem ofArgs_input {args : List String} {o : Options} (h : ofArgs args = .ok o)
    (hinput : o.input? = none) (hstdin : o.stdin = false) (text : String) :
    ofArgs (("--input=" ++ text) :: "--stdin" :: args) = .ok (o.hear (some text) true) ∧
      ofArgs (("--input=" ++ text) :: args) = .ok (o.hear (some text) false) := by
  obtain ⟨hargs, hfiles⟩ := ofArgs_eq_ok.mp h
  obtain ⟨-, hhear⟩ := quiet_addArgs args {} o hargs hinput hstdin
  refine ⟨ofArgs_eq_ok.mpr ⟨?_, hfiles⟩, ofArgs_eq_ok.mpr ⟨?_, hfiles⟩⟩
  · rw [addArgs_input, addArgs_stdin, hhear]
  · rw [addArgs_input, hhear]

end Options

end Fish.Cli
