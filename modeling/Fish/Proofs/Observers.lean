import Fish.Proofs.Requests

/-!
Observers and what they hear. What has been asked of a scheduler, with what it responded, says who
is subscribed and who was told what; the scheduler keeps to that. Its machine does not notice who
listens, as long as nobody cancels.
-/

namespace Fish

/-- What a history of requests says of observers. -/
structure Register where
  /-- The numbers that were given out, in order. -/
  given : List Nat := []
  /-- Who is subscribed, by number, and when he cancels. -/
  subscribed : List (Nat × (List BatchReport → Bool)) := []
  told : List (Nat × BatchReport) := []

namespace Register

/-- Everyone who is subscribed is told. -/
def tell (r : Register) (report : BatchReport) : Register :=
  { r with told := r.told ++ r.subscribed.map fun entry => (entry.1, report) }

/-- Enters a request and the response to it. -/
def enter (r : Register) : Request × Response → Register
  | (.subscribe cancels, .subscribed id) =>
    { r with given := r.given ++ [id], subscribed := r.subscribed ++ [(id, cancels)] }
  | (.unsubscribe id, _) => { r with subscribed := r.subscribed.eraseP (·.1 == id) }
  | (_, response) => response.reports.foldl tell r

def ofHistory (history : List (Request × Response)) : Register := history.foldl enter {}

/-- What one of the observers was told, in order. -/
def toldTo (r : Register) (id : Nat) : List BatchReport :=
  (r.told.filter (·.1 == id)).map Prod.snd

end Register

/-- It is about the run, not about who listens. -/
def Request.ofRun : Request → Bool
  | subscribe _ => false
  | unsubscribe _ => false
  | _ => true

def Response.ofRun : Response → Bool
  | subscribed _ => false
  | unsubscribed _ => false
  | _ => true

/-- Where keys are distinct, each is that of a single entry. -/
theorem filter_key_eq {α : Type} {key : α → Nat} {l : List α} (h : (l.map key).Nodup) {a : α}
    (ha : a ∈ l) : l.filter (key · == key a) = [a] := by
  induction l with
  | nil => cases ha
  | cons b l ih =>
    rw [List.map_cons, List.nodup_cons] at h
    obtain ⟨hb, hl⟩ := h
    rcases List.mem_cons.mp ha with rfl | ha
    · rw [List.filter_cons_of_pos (by simp), List.filter_eq_nil_iff.mpr]
      intro c hc hkey
      exact hb (List.mem_map.mpr ⟨c, hc, beq_iff_eq.mp hkey⟩)
    · have hne : key b ≠ key a := fun hkey => hb (List.mem_map.mpr ⟨a, ha, hkey.symm⟩)
      rw [List.filter_cons_of_neg (by simp [hne]), ih hl ha]

/-- Where keys are distinct, nobody else is removed with a key. -/
theorem filter_key_ne {α : Type} {key : α → Nat} {l : List α} (h : (l.map key).Nodup) (k : Nat) :
    l.filter (key · != k) = l.eraseP (key · == k) := by
  induction l with
  | nil => rfl
  | cons b l ih =>
    rw [List.map_cons, List.nodup_cons] at h
    obtain ⟨hb, hl⟩ := h
    by_cases hkey : key b = k
    · rw [List.filter_cons_of_neg (by simp [hkey]), List.eraseP_cons_of_pos (by simp [hkey]),
        List.filter_eq_self]
      intro c hc
      rw [bne_iff_ne]
      rintro rfl
      exact hb (List.mem_map.mpr ⟨c, hc, hkey.symm⟩)
    · rw [List.filter_cons_of_pos (by simp [hkey]), List.eraseP_cons_of_neg (by simp [hkey]),
        ih hl]

namespace Scheduler

variable {μ : Type} {s : Scheduler μ} {r : Register}

/-- The scheduler keeps to the register, and all numbers in use were given out. -/
structure Registered (s : Scheduler μ) (r : Register) : Prop where
  given : r.given = List.range s.nextId
  subscribed : s.observers.map (fun o => (o.id, o.cancels)) = r.subscribed
  told : s.notified.toList = r.told
  distinct : (s.observers.map Observer.id).Nodup
  subscribed_lt : ∀ o ∈ s.observers, o.id < s.nextId
  told_lt : ∀ notice ∈ r.told, notice.1 < s.nextId
  received : ∀ o ∈ s.observers, o.received.reverse = r.toldTo o.id

theorem registered_ofMachine (machine : μ) (pacing : Pacing) :
    (ofMachine machine pacing).Registered {} where
  given := rfl
  subscribed := rfl
  told := rfl
  distinct := List.nodup_nil
  subscribed_lt := by simp [ofMachine]
  told_lt := by simp
  received := by simp [ofMachine]

theorem registered_subscribe (h : s.Registered r) (cancels : List BatchReport → Bool) :
    (s.subscribe cancels).2.Registered
      (r.enter (.subscribe cancels, .subscribed (s.subscribe cancels).1)) where
  given := by
    rw [Register.enter, h.given]
    exact List.range_succ.symm
  subscribed := by
    rw [Register.enter, ← h.subscribed]
    simp [subscribe]
  told := h.told
  distinct := by
    simp only [subscribe, List.map_append, List.map_cons, List.map_nil, List.nodup_append]
    refine ⟨h.distinct, by simp, ?_⟩
    intro id hid id' hid' heq
    obtain ⟨o, ho, rfl⟩ := List.mem_map.mp hid
    have hlt := h.subscribed_lt o ho
    rw [List.mem_singleton.mp hid'] at heq
    omega
  subscribed_lt := by
    intro o ho
    rcases List.mem_append.mp ho with ho | ho
    · exact Nat.lt_succ_of_lt (h.subscribed_lt o ho)
    · rw [List.mem_singleton.mp ho]
      exact Nat.lt_succ_self _
  told_lt := fun notice hnotice => Nat.lt_succ_of_lt (h.told_lt notice hnotice)
  received := by
    intro o ho
    rcases List.mem_append.mp ho with ho | ho
    · exact h.received o ho
    · -- nobody was told anything under a number that was not given out yet
      have hnothing : r.told.filter (·.1 == s.nextId) = [] := by
        rw [List.filter_eq_nil_iff]
        intro notice hnotice hid
        have hlt := h.told_lt notice hnotice
        rw [beq_iff_eq.mp hid] at hlt
        exact Nat.lt_irrefl _ hlt
      rw [List.mem_singleton.mp ho]
      simp only [Register.toldTo, Register.enter, hnothing, List.map_nil, List.reverse_nil]

/-- The one of the number is removed, and only he. -/
theorem unsubscribe_eq (h : s.Registered r) (id : Nat) :
    ((s.unsubscribe id).1 = true ↔ id ∈ r.subscribed.map Prod.fst) ∧
      (s.unsubscribe id).2 = { s with observers := s.observers.eraseP (·.id == id) } := by
  constructor
  · rw [← h.subscribed]
    simp [unsubscribe, isSubscribed]
  · rw [unsubscribe, filter_key_ne h.distinct]

theorem registered_unsubscribe (h : s.Registered r) (id : Nat) (response : Response) :
    (s.unsubscribe id).2.Registered (r.enter (.unsubscribe id, response)) := by
  rw [(unsubscribe_eq h id).2]
  have hsub : (s.observers.eraseP (·.id == id)).Sublist s.observers := List.eraseP_sublist
  exact {
    given := h.given
    subscribed := by
      rw [Register.enter, ← h.subscribed, List.eraseP_map]
      rfl
    told := h.told
    distinct := h.distinct.sublist (hsub.map _)
    subscribed_lt := fun o ho => h.subscribed_lt o (hsub.subset ho)
    told_lt := h.told_lt
    received := fun o ho => h.received o (hsub.subset ho) }

theorem registered_notify (h : s.Registered r) (report : BatchReport) :
    (s.notify report).Registered (r.tell report) where
  given := h.given
  subscribed := by
    rw [Register.tell, ← h.subscribed]
    simp [notify, Observer.receive]
  told := by
    rw [Register.tell, ← h.subscribed, ← h.told]
    simp [notify]
  distinct := by
    have hids : (s.notify report).observers.map Observer.id = s.observers.map Observer.id := by
      simp [notify, Observer.receive]
    rw [hids]
    exact h.distinct
  subscribed_lt := by
    intro o' ho'
    obtain ⟨o, ho, rfl⟩ := List.mem_map.mp ho'
    exact h.subscribed_lt o ho
  told_lt := by
    intro notice hnotice
    rw [Register.tell, ← h.subscribed, List.map_map] at hnotice
    rcases List.mem_append.mp hnotice with hnotice | hnotice
    · exact h.told_lt notice hnotice
    · obtain ⟨o, ho, rfl⟩ := List.mem_map.mp hnotice
      exact h.subscribed_lt o ho
  received := by
    intro o' ho'
    obtain ⟨o, ho, rfl⟩ := List.mem_map.mp ho'
    have honce : (s.observers.filter (·.id == o.id)).map (fun _ => report) = [report] := by
      rw [filter_key_eq h.distinct ho]
      rfl
    have htold : (r.tell report).toldTo o.id = r.toldTo o.id ++ [report] := by
      rw [Register.toldTo, Register.tell, ← h.subscribed, List.map_map, List.filter_append,
        List.map_append, List.filter_map, List.map_map, ← honce]
      rfl
    rw [Observer.receive, List.reverse_cons, h.received o ho]
    exact htold.symm

/-- The scheduler as it were if nobody had ever subscribed. -/
def unobserved (s : Scheduler μ) : Scheduler μ :=
  { s with observers := [], nextId := 0, notified := #[] }

theorem notify_unobserved {report : BatchReport}
    (h : (s.notify report).cancelled = s.cancelled) :
    s.unobserved.notify report = (s.notify report).unobserved := by
  have hcancelled : (s.unobserved.notify report).cancelled = s.cancelled := Bool.or_false _
  have hnotify : s.unobserved.notify report =
      { s.unobserved with cancelled := (s.unobserved.notify report).cancelled } := rfl
  rw [hnotify, hcancelled, ← h]
  rfl

variable [Machine μ]

theorem registered_runBatch (h : s.Registered r) :
    s.runBatch.2.Registered (r.tell s.runBatch.1) := by
  obtain ⟨machine, totalSteps, hbatch⟩ := s.runBatch_notifies
  have hworked : Registered { s with machine := machine, totalSteps := totalSteps } r :=
    ⟨h.given, h.subscribed, h.told, h.distinct, h.subscribed_lt, h.told_lt, h.received⟩
  rw [hbatch]
  exact registered_notify hworked _

theorem registered_afterBatches (h : s.Registered r) (batches : Nat) :
    (s.afterBatches batches).Registered ((s.reports batches).foldl Register.tell r) := by
  induction batches generalizing s r with
  | zero => exact h
  | succ batches ih =>
    have hbatch := registered_runBatch h
    cases hstop : s.runBatch.1.stop with
    | some stop =>
      rw [afterBatches_of_stop hstop, (run_of_stop hstop batches).2]
      exact hbatch
    | none =>
      rw [afterBatches_of_going hstop, (run_of_going hstop batches).2]
      exact ih hbatch

variable {answer : Call → μ → Answer × μ}

theorem registered_serveBy (h : s.Registered r) (request : Request) :
    (s.serveBy answer request).2.Registered (r.enter (request, (s.serveBy answer request).1)) := by
  cases request with
  | subscribe cancels => exact registered_subscribe h cancels
  | unsubscribe id => exact registered_unsubscribe h id _
  | batch => exact registered_runBatch h
  | run batches => exact registered_afterBatches h batches
  | cancel =>
    exact ⟨h.given, h.subscribed, h.told, h.distinct, h.subscribed_lt, h.told_lt, h.received⟩
  | call call =>
    exact ⟨h.given, h.subscribed, h.told, h.distinct, h.subscribed_lt, h.told_lt, h.received⟩

theorem registered_serveAllBy (h : s.Registered r) (requests : List Request) :
    (s.serveAllBy answer requests).2.Registered
      ((requests.zip (s.serveAllBy answer requests).1).foldl Register.enter r) := by
  induction requests generalizing s r with
  | nil => exact h
  | cons request requests ih => exact ih (registered_serveBy h request)

theorem work_unobserved (budget : Nat) (s : Scheduler μ) :
    s.unobserved.work budget = ((s.work budget).1, (s.work budget).2.unobserved) :=
  work_view unobserved (fun _ => rfl) (fun _ => rfl) budget s

theorem drain_unobserved (s : Scheduler μ) :
    s.unobserved.drain = (s.drain.1, s.drain.2.unobserved) := by
  have hmachine : s.unobserved.machine = s.machine := rfl
  unfold drain
  rw [hmachine]
  cases Machine.read s.machine <;> rfl

/-- A batch reports the same whoever listens. If nobody cancels, nothing else shows it. -/
theorem runBatch_unobserved (s : Scheduler μ) :
    s.unobserved.runBatch.1 = s.runBatch.1 ∧
      (s.runBatch.2.cancelled = s.cancelled →
        s.unobserved.runBatch.2 = s.runBatch.2.unobserved) := by
  have hsize : s.unobserved.batchSize = s.batchSize := rfl
  have hbatch : s.unobserved.runBatch = (s.runBatch.1,
      (s.work s.batchSize).2.drain.2.unobserved.notify s.runBatch.1) := by
    simp only [runBatch, hsize, work_unobserved, drain_unobserved]
    rfl
  have hworked : (s.work s.batchSize).2.drain.2.cancelled = s.cancelled := by
    obtain ⟨machine, totalSteps, hwork⟩ := s.work_frame s.batchSize
    obtain ⟨drained, hdrain⟩ := (s.work s.batchSize).2.drain_frame
    rw [hdrain, hwork]
  rw [hbatch]
  exact ⟨rfl, fun hcancelled => notify_unobserved (hcancelled.trans hworked.symm)⟩

/-- Nothing takes a cancellation back. -/
theorem cancelled_runBatch (h : s.cancelled = true) : s.runBatch.2.cancelled = true := by
  obtain ⟨machine, totalSteps, hbatch⟩ := s.runBatch_notifies
  rw [hbatch, notify, h, Bool.true_or]

/-- If nobody has cancelled by the end of a run, nobody has at its first batch. -/
theorem cancelled_eq_of_afterBatches {batches : Nat}
    (h : (s.runBatch.2.afterBatches batches).cancelled = s.cancelled) :
    s.runBatch.2.cancelled = s.cancelled := by
  cases hs : s.cancelled with
  | true => exact cancelled_runBatch hs
  | false =>
    rw [hs] at h
    rw [Bool.eq_false_iff]
    intro hcancelled
    have hend : (s.runBatch.2.afterBatches batches).cancelled = true :=
      afterBatches_keeps (P := fun t => t.cancelled = true) (fun _ => cancelled_runBatch)
        batches hcancelled
    rw [h] at hend
    cases hend

theorem afterBatches_unobserved (batches : Nat)
    (h : (s.afterBatches batches).cancelled = s.cancelled) :
    s.unobserved.afterBatches batches = (s.afterBatches batches).unobserved ∧
      s.unobserved.reports batches = s.reports batches ∧
      (s.unobserved.run batches).map Prod.fst = (s.run batches).map Prod.fst := by
  induction batches generalizing s with
  | zero => exact ⟨rfl, rfl, rfl⟩
  | succ batches ih =>
    obtain ⟨hreport, hnext⟩ := s.runBatch_unobserved
    cases hstop : s.runBatch.1.stop with
    | some stop =>
      have hstop' : s.unobserved.runBatch.1.stop = some stop := by rw [hreport, hstop]
      rw [afterBatches_of_stop hstop] at h
      rw [afterBatches_of_stop hstop, afterBatches_of_stop hstop', (run_of_stop hstop' batches).1,
        (run_of_stop hstop' batches).2, (run_of_stop hstop batches).1,
        (run_of_stop hstop batches).2, hreport, hnext h]
      exact ⟨rfl, rfl, rfl⟩
    | none =>
      have hstop' : s.unobserved.runBatch.1.stop = none := by rw [hreport, hstop]
      rw [afterBatches_of_going hstop] at h
      have hbatch := cancelled_eq_of_afterBatches h
      obtain ⟨hafter, hreports, hrun⟩ := ih (h.trans hbatch.symm)
      rw [afterBatches_of_going hstop, afterBatches_of_going hstop',
        (run_of_going hstop' batches).1, (run_of_going hstop' batches).2,
        (run_of_going hstop batches).1, (run_of_going hstop batches).2, hreport, hnext hbatch]
      exact ⟨hafter, congrArg _ hreports, hrun⟩

/-- In the whole history, no observer cancels. -/
def Undisturbed (answer : Call → μ → Answer × μ) : List Request → Scheduler μ → Prop
  | [], _ => True
  | request :: requests, s =>
    (request = .cancel ∨ (s.serveBy answer request).2.cancelled = s.cancelled) ∧
      Undisturbed answer requests (s.serveBy answer request).2

theorem serveBy_unobserved {request : Request} (hrun : request.ofRun = true)
    (h : request = .cancel ∨ (s.serveBy answer request).2.cancelled = s.cancelled) :
    s.unobserved.serveBy answer request =
        ((s.serveBy answer request).1, (s.serveBy answer request).2.unobserved) ∧
      (s.serveBy answer request).1.ofRun = true := by
  cases request with
  | subscribe cancels => cases hrun
  | unsubscribe id => cases hrun
  | batch =>
    have hcancelled : s.runBatch.2.cancelled = s.cancelled := h.resolve_left Request.noConfusion
    obtain ⟨hreport, hnext⟩ := s.runBatch_unobserved
    rw [serveBy, serveBy, hreport, hnext hcancelled]
    exact ⟨rfl, rfl⟩
  | run batches =>
    have hcancelled : (s.afterBatches batches).cancelled = s.cancelled :=
      h.resolve_left Request.noConfusion
    obtain ⟨hafter, hreports, hstop⟩ := afterBatches_unobserved batches hcancelled
    rw [serveBy, serveBy, hafter, hreports, hstop]
    exact ⟨rfl, rfl⟩
  | cancel => exact ⟨rfl, rfl⟩
  | call call => exact ⟨rfl, rfl⟩

theorem serveBy_of_observers (answer : Call → μ → Answer × μ) {request : Request}
    (h : request.ofRun = false) (s : Scheduler μ) :
    (s.serveBy answer request).2.unobserved = s.unobserved ∧
      (s.serveBy answer request).1.ofRun = false := by
  cases request with
  | subscribe cancels => exact ⟨rfl, rfl⟩
  | unsubscribe id => exact ⟨rfl, rfl⟩
  | _ => cases h

/-- A history in which no observer cancels goes as it does without any. -/
theorem serveAllBy_unobserved {requests : List Request} (h : Undisturbed answer requests s) :
    s.unobserved.serveAllBy answer (requests.filter Request.ofRun) =
      ((s.serveAllBy answer requests).1.filter Response.ofRun,
        (s.serveAllBy answer requests).2.unobserved) := by
  induction requests generalizing s with
  | nil => rfl
  | cons request requests ih =>
    obtain ⟨hfirst, hrest⟩ := h
    rw [serveAllBy_cons]
    cases hrun : request.ofRun with
    | true =>
      obtain ⟨hserve, hresponse⟩ := serveBy_unobserved hrun hfirst
      rw [List.filter_cons_of_pos hrun, List.filter_cons_of_pos hresponse, serveAllBy_cons,
        hserve, ih hrest]
    | false =>
      obtain ⟨hserve, hresponse⟩ := serveBy_of_observers answer hrun s
      rw [List.filter_cons_of_neg (by simp [hrun]), List.filter_cons_of_neg (by simp [hresponse]),
        ← hserve, ih hrest]

end Scheduler

/-- Observers hear of every batch once and in order, as long as they are subscribed, and they do not
disturb the run. -/
theorem observers_hear_every_batch {μ : Type} [Machine μ] (answer : Call → μ → Answer × μ)
    (machine : μ) (pacing : Pacing) (requests : List Request) :
    let s := Scheduler.ofMachine machine pacing
    let t := (s.serveAllBy answer requests).2
    let register := Register.ofHistory (requests.zip (s.serveAllBy answer requests).1)
    (register.given.Nodup ∧ (register.subscribed.map Prod.fst).Nodup) ∧
      (t.observers.map (fun o => (o.id, o.cancels)) = register.subscribed ∧
        t.notified.toList = register.told ∧
        ∀ o ∈ t.observers, o.received.reverse = register.toldTo o.id) ∧
      (∀ id,
        ((t.unsubscribe id).1 = true ↔ id ∈ register.subscribed.map Prod.fst) ∧
          (t.unsubscribe id).2 = { t with observers := t.observers.eraseP (·.id == id) }) ∧
      ∀ others : List Request, requests.filter Request.ofRun = others.filter Request.ofRun →
        s.Undisturbed answer requests → s.Undisturbed answer others →
        (s.serveAllBy answer requests).1.filter Response.ofRun =
            (s.serveAllBy answer others).1.filter Response.ofRun ∧
          t.unobserved = (s.serveAllBy answer others).2.unobserved := by
  intro s t register
  have hregistered : t.Registered register :=
    Scheduler.registered_serveAllBy (Scheduler.registered_ofMachine machine pacing) requests
  refine ⟨⟨?_, ?_⟩, ⟨hregistered.subscribed, hregistered.told, hregistered.received⟩,
    Scheduler.unsubscribe_eq hregistered, ?_⟩
  · rw [hregistered.given]
    exact List.nodup_range
  · rw [← hregistered.subscribed, List.map_map]
    exact hregistered.distinct
  · intro others hsame hrequests hothers
    have halone := Scheduler.serveAllBy_unobserved hrequests
    rw [hsame, Scheduler.serveAllBy_unobserved hothers, Prod.mk.injEq] at halone
    exact ⟨halone.1.symm, halone.2.symm⟩

/-- The first of two observers cancels, and both are told, the second also of the batch that is
left out. -/
theorem observers_hear_every_batch_tripping :
    let s := Scheduler.ofMachine (Program.load "1" [] 0) ⟨1, none⟩
    (s.serveAllBy Program.respond [.subscribe fun _ => true, .subscribe fun _ => false, .batch,
        .unsubscribe 0, .subscribe fun _ => false, .batch]).2.notified.toList =
      [(0, ⟨1, "", none⟩), (1, ⟨1, "", none⟩),
        (1, ⟨0, "", some .cancelled⟩), (2, ⟨0, "", some .cancelled⟩)] ∧
    (s.serveAllBy Program.respond
        [.subscribe fun reports => 3 ≤ reports.length, .batch, .run 1]).1.filter Response.ofRun =
      (s.serveAllBy Program.respond [.batch, .run 1]).1.filter Response.ofRun := by
  intro s
  have htold := (observers_hear_every_batch Program.respond (Program.load "1" [] 0) ⟨1, none⟩
    [.subscribe fun _ => true, .subscribe fun _ => false, .batch, .unsubscribe 0,
      .subscribe fun _ => false, .batch]).2.1.2.1
  have hsame := (observers_hear_every_batch Program.respond (Program.load "1" [] 0) ⟨1, none⟩
    [.subscribe fun reports => 3 ≤ reports.length, .batch, .run 1]).2.2.2 [.batch, .run 1] rfl
    ⟨.inr rfl, .inr (by decide), .inr (by decide), trivial⟩
    ⟨.inr (by decide), .inr (by decide), trivial⟩
  refine ⟨htold.trans ?_, hsame.1⟩
  decide

end Fish
