import Gretun.Health.Targets

/-!
# The worker pool

The slots in use are those of the workers from `probing` to `recorded`, the workers
and the targets still to be dispatched make up the list of targets, and the map has
the targets of the workers that have recorded a result. These facts hold at every
moment of a call of `ProbeTargets`, whatever the order of its steps. When the call
returns, every worker is done; and from every state there is a way on to the return.
-/

namespace Gretun

namespace Health

open Foundation.Run

def Stage.holdsSlot : Stage → Bool
  | .probing _ => true
  | .recorded => true
  | _ => false

def Stage.inProbe : Stage → Bool
  | .probing ph => ph.result?.isNone
  | _ => false

def Stage.hasRecorded : Stage → Bool
  | .recorded => true
  | .released => true
  | .finished => true
  | _ => false

theorem Stage.holdsSlot_of_inProbe {stage : Stage} (h : stage.inProbe = true) :
    stage.holdsSlot = true := by
  cases stage with
  | probing ph => rfl
  | _ => cases h

theorem Stage.holdsSlot_deliver (stage : Stage) (p : Packet) :
    (stage.deliver p).holdsSlot = stage.holdsSlot := by
  cases stage <;> rfl

theorem Stage.hasRecorded_deliver (stage : Stage) (p : Packet) :
    (stage.deliver p).hasRecorded = stage.hasRecorded := by
  cases stage <;> rfl

theorem Stage.deliver_eq_finished (stage : Stage) (p : Packet) :
    stage.deliver p = .finished ↔ stage = .finished := by
  cases stage <;> simp [Stage.deliver]

/-- The capacity of the semaphore is the bound that was asked for, if it is one of
`1` to the number of targets, and the number of targets otherwise. -/
theorem Job.slots_eq (job : Job) :
    job.slots = if 1 ≤ job.concurrency ∧ job.concurrency ≤ job.targets.length then
      job.concurrency.toNat else job.targets.length := by
  unfold Job.slots
  split_ifs <;> omega

theorem Job.slots_pos {job : Job} (h : job.targets ≠ []) : 0 < job.slots := by
  have hlen := List.length_pos_iff.mpr h
  unfold Job.slots
  split_ifs <;> omega

namespace Pool

inductive Advances (job : Job) (s : Pool) (w : Worker) : Stage → ℕ → Results → Prop
  | acquire (h : w.stage = .launched) (hfree : s.sem < job.slots) :
      Advances job s w (.probing .called) (s.sem + 1) s.results
  | skip {r : ProbeResult} (h : w.stage = .launched) (hr : r.target = w.target) :
      Advances job s w (.skipped r) s.sem s.results
  | call {ph ph' : Phase} (h : w.stage = .probing ph)
      (hcont : Continues job.setting w.target ph ph') :
      Advances job s w (.probing ph') s.sem s.results
  | record {r : ProbeResult} (h : w.stage = .probing (.returned r)) :
      Advances job s w .recorded s.sem (s.results.insert w.target r)
  | recordSkipped {r : ProbeResult} (h : w.stage = .skipped r) :
      Advances job s w .released s.sem (s.results.insert w.target r)
  | release (h : w.stage = .recorded) :
      Advances job s w .released (s.sem - 1) s.results
  | done (h : w.stage = .released) : Advances job s w .finished s.sem s.results

theorem move_cases (job : Job) (s : Pool) (i : ℕ) (w : Worker) (m : Move) :
    s.move job i w m = s ∨ ∃ stage sem results wire,
      Advances job s w stage sem results ∧
        s.move job i w m =
          { s.setStage i w stage with sem := sem, results := results, wire := wire } := by
  cases m with
  | acquire =>
      simp only [move]
      split
      · rename_i h
        exact .inr ⟨_, _, _, _, .acquire h.1 h.2, rfl⟩
      · exact .inl rfl
  | skip =>
      simp only [move]
      split
      · rename_i h _
        exact .inr ⟨_, _, _, _, .skip h rfl, rfl⟩
      · exact .inl rfl
  | call c =>
      simp only [move]
      split
      · rename_i ph h
        split
        · rename_i ph' hstep
          exact .inr ⟨_, _, _, _, .call h (continues_probeStep hstep), rfl⟩
        · exact .inl rfl
      · exact .inl rfl
  | record =>
      simp only [move]
      split
      · rename_i r h
        exact .inr ⟨_, _, _, _, .record h, rfl⟩
      · rename_i r h
        exact .inr ⟨_, _, _, _, .recordSkipped h, rfl⟩
      · exact .inl rfl
  | release =>
      simp only [move]
      split
      · rename_i h
        exact .inr ⟨_, _, _, _, .release h, rfl⟩
      · exact .inl rfl
  | done =>
      simp only [move]
      split
      · rename_i h
        exact .inr ⟨_, _, _, _, .done h, rfl⟩
      · exact .inl rfl

structure Accounted (job : Job) (s : Pool) : Prop where
  sem : s.sem = s.workers.countP (·.stage.holdsSlot)
  bound : s.sem ≤ job.slots
  targets : s.workers.map (·.target) ++ s.remaining = job.targets
  keys : ∀ t, t ∈ s.results ↔ ∃ w ∈ s.workers, w.target = t ∧ w.stage.hasRecorded = true
  named : ∀ t r, s.results.lookup t = some r → r.target = t
  held : ∀ w ∈ s.workers, ∀ r, w.stage.result? = some r → r.target = w.target
  returned : ∀ m, s.returned = some m →
    s.dispatching = false ∧ (∀ w ∈ s.workers, w.stage = .finished) ∧ m = s.results
  complete : s.ctxErr = none → s.dispatching = false → s.remaining = []

theorem accounted_start (job : Job) (now : Time) : (start job now).Accounted job where
  sem := rfl
  bound := Nat.zero_le _
  targets := rfl
  keys t := by simp [start]
  named t r h := by simp [start] at h
  held w hw := by simp [start] at hw
  returned m hm := by
    by_cases h : job.targets = []
    · simp only [start, h, if_true, Option.some.injEq] at hm
      simp [start, h, ← hm]
    · simp [start, h] at hm
  complete _ h := by simpa [start] using h

/-! ## One step -/

section Advance

variable {job : Job} {s : Pool} {w : Worker} {stage : Stage} {sem : ℕ}
  {results : Results}

theorem Advances.sem_eq (h : Advances job s w stage sem results)
    (hpos : w.stage.holdsSlot = true → 0 < s.sem) :
    sem = s.sem - (if w.stage.holdsSlot then 1 else 0) +
      (if stage.holdsSlot then 1 else 0) := by
  have hpos' := hpos
  cases h with
  | acquire h hfree => rw [h]; rfl
  | skip h hr => rw [h]; rfl
  | call h hcont =>
      rw [h] at hpos ⊢
      exact (Nat.sub_add_cancel (hpos rfl)).symm
  | record h =>
      rw [h] at hpos ⊢
      exact (Nat.sub_add_cancel (hpos rfl)).symm
  | recordSkipped h => rw [h]; rfl
  | release h => rw [h]; rfl
  | done h => rw [h]; rfl

theorem Advances.sem_le (h : Advances job s w stage sem results)
    (hbound : s.sem ≤ job.slots) : sem ≤ job.slots := by
  cases h with
  | acquire h hfree => exact hfree
  | release h => exact (Nat.sub_le _ _).trans hbound
  | _ => exact hbound

/-- A worker records a result when it enters the stages that have recorded one. -/
theorem Advances.mem_iff (h : Advances job s w stage sem results) (t : String) :
    t ∈ results ↔ t ∈ s.results ∨
      t = w.target ∧ w.stage.hasRecorded = false ∧ stage.hasRecorded = true := by
  cases h with
  | acquire h hfree => simp [Stage.hasRecorded]
  | skip h hr => simp [Stage.hasRecorded]
  | call h hcont => simp [Stage.hasRecorded]
  | record h => simp [h, Stage.hasRecorded, or_comm]
  | recordSkipped h => simp [h, Stage.hasRecorded, or_comm]
  | release h => simp [h, Stage.hasRecorded]
  | done h => simp [h, Stage.hasRecorded]

theorem Advances.hasRecorded (h : Advances job s w stage sem results)
    (hw : w.stage.hasRecorded = true) : stage.hasRecorded = true := by
  cases h with
  | release h => rfl
  | done h => rfl
  | acquire h => rw [h] at hw; cases hw
  | skip h => rw [h] at hw; cases hw
  | call h => rw [h] at hw; cases hw
  | record h => rfl
  | recordSkipped h => rfl

theorem Advances.named (h : Advances job s w stage sem results)
    (hheld : ∀ r, w.stage.result? = some r → r.target = w.target)
    (hnamed : ∀ t r, s.results.lookup t = some r → r.target = t) (t : String)
    (r : ProbeResult) (hr : results.lookup t = some r) : r.target = t := by
  have hinsert : ∀ {r'}, w.stage.result? = some r' →
      (s.results.insert w.target r').lookup t = some r → r.target = t := by
    intro r' hr' hlookup
    by_cases ht : t = w.target
    · subst ht
      rw [AList.lookup_insert] at hlookup
      exact Option.some.inj hlookup ▸ hheld r' hr'
    · rw [AList.lookup_insert_ne ht] at hlookup
      exact hnamed t r hlookup
  cases h with
  | record h => exact hinsert (by rw [h]; rfl) hr
  | recordSkipped h => exact hinsert (by rw [h]; rfl) hr
  | _ => exact hnamed t r hr

theorem Advances.held (h : Advances job s w stage sem results) (r : ProbeResult)
    (hr : stage.result? = some r) : r.target = w.target := by
  cases h with
  | acquire h hfree => cases hr
  | skip h hname => exact Option.some.inj hr ▸ hname
  | call h hcont => exact (hcont.result hr).1
  | record h => cases hr
  | recordSkipped h => cases hr
  | release h => cases hr
  | done h => cases hr

theorem Advances.not_finished (h : Advances job s w stage sem results) :
    w.stage ≠ .finished := by
  cases h <;> simp [*]

end Advance

theorem mem_set_or_eq {α : Type*} {l : List α} {x y : α} {i : ℕ} (hx : x ∈ l)
    (hy : l[i]? = some y) (a : α) : x ∈ l.set i a ∨ x = y := by
  obtain ⟨j, hj⟩ := List.mem_iff_getElem?.mp hx
  by_cases hij : i = j
  · subst hij
    exact .inr (Option.some.inj (hj.symm.trans hy))
  · refine .inl (List.mem_iff_getElem?.mpr ⟨j, ?_⟩)
    rw [List.getElem?_set_ne hij, hj]

theorem map_target_set {ws : List Worker} {i : ℕ} {w : Worker} (hw : ws[i]? = some w)
    (stage : Stage) :
    (ws.set i ⟨w.target, stage⟩).map (·.target) = ws.map (·.target) := by
  refine List.ext_getElem? fun j => ?_
  rw [List.getElem?_map, List.getElem?_map, List.getElem?_set]
  split
  · rename_i hij
    subst hij
    rw [hw, if_pos (List.getElem?_eq_some_iff.mp hw).1]
    rfl
  · rfl

/-- The map has the targets of the workers that have recorded, also after the move. -/
theorem Advances.keys {job : Job} {s : Pool} {i : ℕ} {w : Worker} {stage : Stage}
    {sem : ℕ} {results : Results} (hadv : Advances job s w stage sem results)
    (hw : s.workers[i]? = some w)
    (hkeys : ∀ t, t ∈ s.results ↔
      ∃ w ∈ s.workers, w.target = t ∧ w.stage.hasRecorded = true) (t : String) :
    t ∈ results ↔ ∃ w' ∈ s.workers.set i ⟨w.target, stage⟩,
      w'.target = t ∧ w'.stage.hasRecorded = true := by
  have hmem : w ∈ s.workers := List.mem_of_getElem? hw
  have hnew : (⟨w.target, stage⟩ : Worker) ∈ s.workers.set i ⟨w.target, stage⟩ :=
    List.mem_set (List.getElem?_eq_some_iff.mp hw).1 _
  rw [hadv.mem_iff, hkeys]
  constructor
  · rintro (⟨w', hw', ht, hrec⟩ | ⟨rfl, -, hrec⟩)
    · rcases mem_set_or_eq hw' hw ⟨w.target, stage⟩ with hold | rfl
      · exact ⟨w', hold, ht, hrec⟩
      · exact ⟨_, hnew, ht, hadv.hasRecorded hrec⟩
    · exact ⟨_, hnew, rfl, hrec⟩
  · rintro ⟨w', hw', ht, hrec⟩
    rcases List.mem_or_eq_of_mem_set hw' with hold | rfl
    · exact .inl ⟨w', hold, ht, hrec⟩
    · cases hbefore : w.stage.hasRecorded with
      | true => exact .inl ⟨w, hmem, ht, hbefore⟩
      | false => exact .inr ⟨ht.symm, rfl, hrec⟩

theorem Accounted.sem_pos {job : Job} {s : Pool} (h : s.Accounted job) {w : Worker}
    (hw : w ∈ s.workers) (hslot : w.stage.holdsSlot = true) : 0 < s.sem := by
  rw [h.sem]
  exact List.countP_pos_iff.mpr ⟨w, hw, hslot⟩

theorem Accounted.advance {job : Job} {s : Pool} (h : s.Accounted job) {i : ℕ}
    {w : Worker} (hw : s.workers[i]? = some w) {stage : Stage} {sem : ℕ}
    {results : Results} (hadv : Advances job s w stage sem results)
    (wire : List WireEvent) :
    Accounted job
      { s.setStage i w stage with sem := sem, results := results, wire := wire } := by
  obtain ⟨hi, hget⟩ := List.getElem?_eq_some_iff.mp hw
  have hmem : w ∈ s.workers := List.mem_of_getElem? hw
  constructor
  · change sem = (s.workers.set i _).countP _
    rw [List.countP_set hi, hget, ← h.sem]
    exact hadv.sem_eq (h.sem_pos hmem)
  · exact hadv.sem_le h.bound
  · change (s.workers.set i _).map _ ++ s.remaining = _
    rw [map_target_set hw]
    exact h.targets
  · exact hadv.keys hw h.keys
  · exact hadv.named (h.held w hmem) h.named
  · intro w' hw' r hr
    rcases List.mem_or_eq_of_mem_set hw' with hold | rfl
    · exact h.held w' hold r hr
    · exact hadv.held r hr
  · intro m hm
    exact absurd ((h.returned m hm).2.1 w hmem) hadv.not_finished
  · exact h.complete

theorem Accounted.dispatch {job : Job} {s : Pool} (h : s.Accounted job) :
    s.dispatch.Accounted job := by
  unfold Pool.dispatch
  split
  · rename_i target rest hdispatching hctx hremaining
    constructor
    · rw [List.countP_append, ← h.sem]
      rfl
    · exact h.bound
    · rw [List.map_append, List.append_assoc, ← h.targets, hremaining]
      rfl
    · intro t
      rw [h.keys]
      simp [Stage.hasRecorded, or_and_right, exists_or]
    · exact h.named
    · intro w hw r hr
      rcases List.mem_append.mp hw with hold | hnew
      · exact h.held w hold r hr
      · rw [List.mem_singleton.mp hnew] at hr
        cases hr
    · intro m hm
      exact absurd ((h.returned m hm).1.symm.trans hdispatching) Bool.false_ne_true
    · intro _ hstopped
      exact absurd (hstopped.symm.trans hdispatching) Bool.false_ne_true
  · rename_i hlast
    refine ⟨h.sem, h.bound, h.targets, h.keys, h.named, h.held,
      fun m hm => ⟨rfl, (h.returned m hm).2⟩, fun hctx _ => ?_⟩
    cases hdispatching : s.dispatching with
    | false => exact h.complete hctx hdispatching
    | true =>
        cases hremaining : s.remaining with
        | nil => rfl
        | cons target rest => exact (hlast _ _ hdispatching hctx hremaining).elim

theorem Accounted.wait {job : Job} {s : Pool} (h : s.Accounted job) :
    s.wait.Accounted job := by
  unfold Pool.wait
  split
  · rename_i hdone
    exact ⟨h.sem, h.bound, h.targets, h.keys, h.named, h.held,
      fun m hm => ⟨hdone.1, hdone.2.1, (Option.some.inj hm).symm⟩, h.complete⟩
  · exact h

theorem Accounted.arrive {job : Job} {s : Pool} (h : s.Accounted job) (p : Packet) :
    (s.arrive p).Accounted job := by
  constructor
  · change s.sem = (s.workers.map _).countP _
    rw [List.countP_map, h.sem]
    exact List.countP_congr fun w _ => by
      rw [Function.comp, Worker.deliver, Stage.holdsSlot_deliver]
  · exact h.bound
  · change (s.workers.map _).map _ ++ s.remaining = _
    rw [List.map_map]
    exact h.targets
  · intro t
    change t ∈ s.results ↔ ∃ w ∈ s.workers.map _, _
    rw [h.keys]
    simp [Worker.deliver, Stage.hasRecorded_deliver]
  · exact h.named
  · intro w' hw' r hr
    obtain ⟨w, hw, rfl⟩ := List.mem_map.mp hw'
    rw [Worker.deliver, Stage.result?_deliver] at hr
    exact h.held w hw r hr
  · intro m hm
    obtain ⟨hdispatching, hfinished, heq⟩ := h.returned m hm
    refine ⟨hdispatching, fun w' hw' => ?_, heq⟩
    obtain ⟨w, hw, rfl⟩ := List.mem_map.mp hw'
    exact (Stage.deliver_eq_finished _ _).mpr (hfinished w hw)
  · exact h.complete

theorem Accounted.step {job : Job} {s : Pool} (h : s.Accounted job) (a : Action) :
    (s.step job a).Accounted job := by
  cases a with
  | dispatch => exact h.dispatch
  | move i m =>
      cases hw : s.workers[i]? with
      | none => simpa only [Pool.step, hw] using h
      | some w =>
          simp only [Pool.step, hw]
          rcases move_cases job s i w m with hsame | ⟨_, _, _, wire, hadv, heq⟩
          · rwa [hsame]
          · rw [heq]
            exact h.advance hw hadv wire
  | wait => exact h.wait
  | arrive p => exact h.arrive p
  | cancel err =>
      refine ⟨h.sem, h.bound, h.targets, h.keys, h.named, h.held, h.returned,
        fun hctx => ?_⟩
      have hnone : (s.ctxErr <|> some err) = none := hctx
      cases hold : s.ctxErr <;> simp [hold] at hnone
  | tick d =>
      exact ⟨h.sem, h.bound, h.targets, h.keys, h.named, h.held, h.returned, h.complete⟩

/-! ## Whole calls -/

def after (job : Job) (now : Time) (as : List Action) : Pool :=
  as.foldl (Pool.step job) (start job now)

theorem accounted_after (job : Job) (now : Time) (as : List Action) :
    (after job now as).Accounted job :=
  invariant_foldl (I := Accounted job) (fun _ a h => h.step a)
    (accounted_start job now) as

theorem ctxErr_step {job : Job} {s : Pool} {a : Action} (ha : ∀ err, a ≠ .cancel err) :
    (s.step job a).ctxErr = s.ctxErr := by
  cases a with
  | dispatch =>
      simp only [step, dispatch]
      split <;> rfl
  | move i m =>
      cases hw : s.workers[i]? with
      | none => simp only [step, hw]
      | some w =>
          simp only [step, hw]
          rcases move_cases job s i w m with hsame | ⟨_, _, _, _, -, heq⟩
          · rw [hsame]
          · rw [heq]
            rfl
  | wait =>
      simp only [step, wait]
      split <;> rfl
  | arrive p => rfl
  | cancel err => exact absurd rfl (ha err)
  | tick d => rfl

theorem ctxErr_after {job : Job} {now : Time} {as : List Action}
    (h : ∀ err, .cancel err ∉ as) : (after job now as).ctxErr = none := by
  have hsteps : ∀ a ∈ as, ∀ err, a ≠ .cancel err := by
    rintro _ ha err rfl
    exact h err ha
  exact invariant_of_eachStep (I := fun s : Pool => s.ctxErr = none)
    (fun s a hs ha => (ctxErr_step ha).trans hs) rfl (eachStep_of_forall_mem hsteps _)

theorem inProbe_le_slots {job : Job} {s : Pool} (h : s.Accounted job) :
    s.workers.countP (·.stage.inProbe) ≤ job.slots := by
  have hmono := List.countP_mono_left (l := s.workers) (p := (·.stage.inProbe))
    (q := (·.stage.holdsSlot)) fun _ _ => Stage.holdsSlot_of_inProbe
  rw [← h.sem] at hmono
  exact hmono.trans h.bound

theorem Accounted.mem_results_iff {job : Job} {s : Pool} (h : s.Accounted job)
    (hfinished : ∀ w ∈ s.workers, w.stage = .finished) (t : String) :
    t ∈ s.results ↔ t ∈ s.workers.map (·.target) := by
  rw [h.keys, List.mem_map]
  refine exists_congr fun w => and_congr_right fun hw => and_iff_left ?_
  rw [hfinished w hw]
  rfl

theorem Accounted.map_target {job : Job} {s : Pool} (h : s.Accounted job)
    (hctx : s.ctxErr = none) (hdispatching : s.dispatching = false) :
    s.workers.map (·.target) = job.targets := by
  rw [← h.targets, h.complete hctx hdispatching, List.append_nil]

/-- `ProbeTargets` is bounded, complete and leaves nothing running. At no moment are
more workers in `Probe` than the bound. When the call returns, the dispatch loop is
over and every worker is done, the keys of the map are the elements of a first part
of the targets, of all of them if the context was not cancelled, and every result is
that of its key. -/
theorem probeTargets_bounded (job : Job) (now : Time) (as : List Action) :
    (after job now as).workers.countP (·.stage.inProbe) ≤
        (if 1 ≤ job.concurrency ∧ job.concurrency ≤ job.targets.length then
          job.concurrency.toNat else job.targets.length) ∧
      ∀ m, (after job now as).returned = some m →
        ((after job now as).dispatching = false ∧
          ∀ w ∈ (after job now as).workers, w.stage = .finished) ∧
        (∃ done, done <+: job.targets ∧ (∀ t, t ∈ m ↔ t ∈ done) ∧
          ((∀ err, .cancel err ∉ as) → done = job.targets)) ∧
        ∀ t r, m.lookup t = some r → r.target = t := by
  have h := accounted_after job now as
  refine ⟨?_, fun m hm => ?_⟩
  · rw [← job.slots_eq]
    exact inProbe_le_slots h
  · obtain ⟨hdispatching, hfinished, rfl⟩ := h.returned m hm
    refine ⟨⟨hdispatching, hfinished⟩,
      ⟨(after job now as).workers.map (·.target), ?_, h.mem_results_iff hfinished,
        fun hcancel => h.map_target (ctxErr_after hcancel) hdispatching⟩, h.named⟩
    exact ⟨_, h.targets⟩

/-- Two hosts are asked, and both have a result. -/
theorem probeTargets_bounded_twoRun :
    (after twoTargets 1 twoRun).returned = some (outcome twoTargets twoRun) ∧
      (∀ w ∈ (after twoTargets 1 twoRun).workers, w.stage = .finished) ∧
      ∀ t r, (outcome twoTargets twoRun).lookup t = some r → r.target = t :=
  have hreturned : (after twoTargets 1 twoRun).returned =
      some (outcome twoTargets twoRun) := returned_eq_outcome (by decide +kernel)
  have h := (probeTargets_bounded twoTargets 1 twoRun).2 _ hreturned
  ⟨hreturned, h.1.2, h.2.2⟩

/-! ## The way to the return -/

end Pool

def Phase.rank : Phase → ℕ
  | .called => 6
  | .begun _ => 5
  | .listening .. => 4
  | .resolved .. => 3
  | .sent .. => 2
  | .reading .. => 1
  | .returned _ => 0

def Stage.rank : Stage → ℕ
  | .launched => 11
  | .probing ph => ph.rank + 4
  | .skipped _ => 2
  | .recorded => 2
  | .released => 1
  | .finished => 0

theorem exists_probeStep (e : Setting) (now : Time) (ctxErr : Option CtxError)
    (target : String) {ph : Phase} (h : ph.result? = none) :
    ∃ c ph', probeStep e now ctxErr target ph c = some ph' ∧ ph'.rank < ph.rank := by
  cases ph with
  | called =>
      refine ⟨.checkContext, ?_⟩
      cases ctxErr with
      | none => exact ⟨.begun now, rfl, Nat.lt_succ_self 5⟩
      | some err => exact ⟨.returned _, rfl, Nat.succ_pos 5⟩
  | begun timestamp =>
      exact ⟨.listenPacket (some ""), .returned _, rfl, Nat.succ_pos 4⟩
  | listening timestamp queue =>
      refine ⟨.resolve, ?_⟩
      simp only [probeStep]
      cases e.resolveIPAddr target with
      | error err => exact ⟨.returned _, rfl, Nat.succ_pos 3⟩
      | ok dst => exact ⟨.resolved _ _ _, rfl, Nat.lt_succ_self 3⟩
  | resolved timestamp queue dst =>
      exact ⟨.writeTo (some ""), .returned _, rfl, Nat.succ_pos 2⟩
  | sent timestamp queue start =>
      exact ⟨.setReadDeadline (some ""), .returned _, rfl, Nat.succ_pos 1⟩
  | reading timestamp queue start deadline =>
      refine ⟨.readError "",
        .returned (failed target timestamp (readErrorText ctxErr "")), ?_, Nat.succ_pos 0⟩
      cases queue <;> rfl
  | returned r => cases h

namespace Pool

def rank (s : Pool) : ℕ :=
  (s.workers.map (·.stage.rank)).sum + 12 * s.remaining.length +
    s.dispatching.toNat + s.returned.isNone.toNat

theorem sum_map_set_lt {α : Type*} (f : α → ℕ) {l : List α} {i : ℕ} {x a : α}
    (hx : l[i]? = some x) (h : f a < f x) :
    ((l.set i a).map f).sum < (l.map f).sum := by
  induction l generalizing i with
  | nil => cases hx
  | cons y l ih =>
      cases i with
      | zero =>
          obtain rfl := Option.some.inj hx
          rw [List.set_cons_zero, List.map_cons, List.map_cons, List.sum_cons,
            List.sum_cons]
          omega
      | succ i =>
          have hlt := ih hx
          rw [List.set_cons_succ, List.map_cons, List.map_cons, List.sum_cons,
            List.sum_cons]
          omega

section Ranked

variable {job : Job} {s : Pool} {i : ℕ} {w : Worker}

theorem rank_setStage_lt (hi : s.workers[i]? = some w) {stage : Stage}
    (h : stage.rank < w.stage.rank) (sem : ℕ) (results : Results)
    (wire : List WireEvent) :
    rank { s.setStage i w stage with sem := sem, results := results, wire := wire } <
      s.rank := by
  have hsum := sum_map_set_lt (fun w : Worker => w.stage.rank) hi
    (a := { w with stage := stage }) h
  simp only [rank, setStage]
  omega

/-- A worker that is not done has a next move, unless it waits for a slot. -/
theorem exists_move (hi : s.workers[i]? = some w) (hw : w.stage ≠ .finished)
    (hfree : w.stage = .launched → s.sem < job.slots) :
    ∃ m, (s.move job i w m).rank < s.rank := by
  cases hstage : w.stage with
  | launched =>
      refine ⟨.acquire, ?_⟩
      rw [move, if_pos ⟨hstage, hfree hstage⟩]
      exact rank_setStage_lt hi (by rw [hstage]; decide) _ _ _
  | probing ph =>
      cases hresult : ph.result? with
      | none =>
          obtain ⟨c, ph', hstep, hrank⟩ :=
            exists_probeStep job.setting s.now s.ctxErr w.target hresult
          refine ⟨.call c, ?_⟩
          simp only [move, hstage, hstep]
          refine rank_setStage_lt hi ?_ _ _ _
          rw [hstage]
          exact Nat.add_lt_add_right hrank 4
      | some r =>
          cases ph <;> cases hresult
          refine ⟨.record, ?_⟩
          simp only [move, hstage]
          refine rank_setStage_lt hi ?_ _ _ _
          rw [hstage]
          exact Nat.lt_add_of_pos_left Nat.two_pos
  | skipped r =>
      refine ⟨.record, ?_⟩
      simp only [move, hstage]
      exact rank_setStage_lt hi (by rw [hstage]; exact Nat.lt_succ_self 1) _ _ _
  | recorded =>
      refine ⟨.release, ?_⟩
      rw [move, if_pos hstage]
      exact rank_setStage_lt hi (by rw [hstage]; decide) _ _ _
  | released =>
      refine ⟨.done, ?_⟩
      rw [move, if_pos hstage]
      exact rank_setStage_lt hi (by rw [hstage]; decide) _ _ _
  | finished => exact absurd hstage hw

end Ranked

/-- Of the workers that are not done, one that does not wait for a slot: if all of
them wait, then all slots are free. -/
theorem Accounted.exists_ready {job : Job} {s : Pool} (h : s.Accounted job)
    {w : Worker} (hw : w ∈ s.workers) (hstage : w.stage ≠ .finished) :
    ∃ w' ∈ s.workers, w'.stage ≠ .finished ∧
      (w'.stage = .launched → s.sem < job.slots) := by
  by_cases hother : ∃ w' ∈ s.workers, w'.stage ≠ .finished ∧ w'.stage ≠ .launched
  · obtain ⟨w', hw', hfinished, hlaunched⟩ := hother
    exact ⟨w', hw', hfinished, fun heq => absurd heq hlaunched⟩
  · refine ⟨w, hw, hstage, fun _ => ?_⟩
    have hzero : s.sem = 0 := by
      rw [h.sem, List.countP_eq_zero]
      intro w' hw' hslot
      refine hother ⟨w', hw', fun heq => ?_, fun heq => ?_⟩ <;>
        · rw [heq] at hslot
          cases hslot
    rw [hzero]
    refine Job.slots_pos fun hnil => ?_
    have htargets := h.targets
    rw [hnil, List.append_eq_nil_iff, List.map_eq_nil_iff] at htargets
    rw [htargets.1] at hw
    cases hw

/-- A call that has not returned has a next step that is not a cancellation. -/
theorem Accounted.exists_step {job : Job} {s : Pool} (h : s.Accounted job)
    (hreturned : s.returned = none) :
    ∃ a, (∀ err, a ≠ .cancel err) ∧ (s.step job a).rank < s.rank := by
  cases hdispatching : s.dispatching with
  | true =>
      refine ⟨.dispatch, by simp, ?_⟩
      simp only [Pool.step, Pool.dispatch]
      split
      · rename_i target rest _ _ hremaining
        simp only [rank, hremaining, List.map_append, List.sum_append, List.map_singleton,
          List.sum_singleton, List.length_cons, Stage.rank]
        omega
      · simp only [rank, hdispatching, Bool.toNat_true, Bool.toNat_false]
        omega
  | false =>
      by_cases hdone : ∀ w ∈ s.workers, w.stage = .finished
      · refine ⟨.wait, by simp, ?_⟩
        rw [Pool.step, Pool.wait, if_pos ⟨hdispatching, hdone, hreturned⟩]
        simp only [rank, hreturned, Option.isNone_none, Option.isNone_some,
          Bool.toNat_true, Bool.toNat_false]
        omega
      · push Not at hdone
        obtain ⟨w₀, hw₀, hstage₀⟩ := hdone
        obtain ⟨w, hw, hstage, hfree⟩ := h.exists_ready hw₀ hstage₀
        obtain ⟨i, hi⟩ := List.mem_iff_getElem?.mp hw
        obtain ⟨m, hlt⟩ := exists_move hi hstage hfree
        refine ⟨.move i m, by simp, ?_⟩
        simp only [Pool.step, hi]
        exact hlt

/-- No call is stuck: whatever has happened, there are steps after which it has
returned, without the context being cancelled. -/
theorem exists_return (job : Job) (now : Time) (as : List Action) :
    ∃ more, (∀ err, .cancel err ∉ more) ∧
      (after job now (as ++ more)).returned.isSome = true := by
  induction hrank : (after job now as).rank using Nat.strong_induction_on
    generalizing as with
  | _ n ih =>
      cases hreturned : (after job now as).returned with
      | some m => exact ⟨[], by simp, by simp [hreturned]⟩
      | none =>
          obtain ⟨a, hcancel, hlt⟩ := (accounted_after job now as).exists_step hreturned
          have hafter : after job now (as ++ [a]) = (after job now as).step job a := by
            rw [after, List.foldl_append]
            rfl
          rw [← hafter, hrank] at hlt
          obtain ⟨more, hmore, hreturn⟩ := ih _ hlt (as ++ [a]) rfl
          refine ⟨a :: more, fun err hmem => ?_, ?_⟩
          · rcases List.mem_cons.mp hmem with heq | hmem
            · exact hcancel err heq.symm
            · exact hmore err hmem
          · rwa [List.append_assoc] at hreturn

end Pool

end Health

end Gretun
