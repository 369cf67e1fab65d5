import VibeKanban.Runtime.Remainder
import VibeKanban.Runtime.Driving

/-! The final status of a run over all orders in which its agent runs are seen to end. -/
namespace VibeKanban.Runtime
open Lib Workflow Router

/-- A run that takes every status it is given. -/
def WorkflowRunStatus.isAwake : WorkflowRunStatus → Bool
  | .pending | .running | .awaitingHuman => true
  | _ => false

theorem next_awake {status : WorkflowRunStatus} (h : status.isAwake = true)
    (written : WorkflowRunStatus) : status.next written = written := by
  cases status <;> first | rfl | cases h

theorem reconcilable_cases {phase : Option QueuePhase} {status : WorkflowRunStatus}
    (h : reconcilable phase status = true) : status.isAwake = true ∨ status = .cancelling := by
  rw [reconcilable, Bool.and_eq_true, decide_eq_true_eq] at h
  rcases h.2 with rfl | rfl | rfl | rfl
  · exact Or.inl rfl
  · exact Or.inl rfl
  · exact Or.inl rfl
  · exact Or.inr rfl

theorem reconcilable_of {phase : Option QueuePhase} {status status' : WorkflowRunStatus}
    (h : reconcilable phase status = true)
    (h' : status'.isAwake = true ∨ status' = .cancelling) : reconcilable phase status' = true := by
  rw [reconcilable, Bool.and_eq_true] at h ⊢
  refine ⟨h.1, decide_eq_true ?_⟩
  rcases h' with h' | rfl
  · cases status' <;> simp [WorkflowRunStatus.isAwake] at h' ⊢
  · simp

section Runs
variable {config : Config} {env : Surroundings} {passes : ℕ} {db₀ db : Db} {run : RunRow}
  {orchestration : ℕ} {children : List (NodeExecutionRow × ℕ)} {outcome : ℕ → AgentRunState}

/-- What every call keeps, with the agent runs it has seen, holds after all calls. -/
theorem foldlM_observe {I : List ℕ → Db → Prop} {D : ℕ → Prop}
    (hstep : ∀ S B db, (∀ a ∈ S ++ B, D a) → I S db →
      ∃ db', observeBatch config env passes run.id outcome db B = some db' ∧ I (S ++ B) db')
    {order : List (List ℕ)} {S : List ℕ} (hD : ∀ a ∈ S ++ order.flatten, D a) (h : I S db) :
    ∃ db', order.foldlM (observeBatch config env passes run.id outcome) db = some db' ∧
      I (S ++ order.flatten) db' := by
  induction order generalizing S db with
  | nil => exact ⟨db, rfl, by simpa using h⟩
  | cons batch rest ih =>
    rw [List.flatten_cons, ← List.append_assoc] at hD ⊢
    obtain ⟨db', hplay, hI⟩ := hstep S batch db
      (fun a ha => hD a (List.mem_append_left rest.flatten ha)) h
    obtain ⟨db'', hrest, hI'⟩ := ih hD hI
    refine ⟨db'', ?_, hI'⟩
    rw [List.foldlM_cons, hplay]
    exact hrest

section Pending
variable {S B : List ℕ} {f : NodeExecutionRow → NodeExecutionRow} {status : WorkflowRunStatus}

/-- A call before the last one: the run fails, waits or stays as it is. -/
theorem call_pending (hp : Beside db₀ run orchestration children outcome)
    (hseen : Seen config env db₀ run children outcome S f db) (hstands : StandsAt run status db)
    (hsub : ∀ a ∈ S ++ B, ∃ c ∈ children, c.2 = a)
    (hopen : reconcilable (db₀.queuePhase? run.id) status = true)
    (hfailed : (flags config env db₀ run children outcome S B f).failed = false)
    (hrest : ∃ c ∈ children, c.2 ∉ S ++ B) :
    ∃ f' db', observeBatch config env passes run.id outcome db B = some db' ∧
      Seen config env db₀ run children outcome (S ++ B) f' db' ∧
      ((flags config env db₀ run children outcome S B f).awaitingHuman = true ∧
          StandsAt run (status.next .awaitingHuman) db' ∨
        (flags config env db₀ run children outcome S B f).awaitingHuman = false ∧
          StandsAt run status db') := by
  cases hwaits : (flags config env db₀ run children outcome S B f).awaitingHuman with
  | true =>
    obtain ⟨f', db', hplay, hseen', hstands'⟩ := call_waits hp hseen hstands hsub hopen hfailed hwaits
    exact ⟨f', db', hplay, hseen', Or.inl ⟨rfl, hstands'⟩⟩
  | false =>
    cases hcancelled : (flags config env db₀ run children outcome S B f).cancelled with
    | true =>
      obtain ⟨f', db', status', hplay, hseen', hstands', hsame, _⟩ :=
        call_cancelled hp hseen hstands hsub hopen hfailed hwaits hcancelled
      exact ⟨f', db', hplay, hseen', Or.inr ⟨rfl, hsame (Or.inl hrest) ▸ hstands'⟩⟩
    | false =>
      obtain ⟨f', hseen', _⟩ := called_seen hp hseen hsub
      have hplay : _ → observeBatch config env passes run.id outcome db B = _ :=
        (call_succeeded hp hseen hstands hsub hopen hfailed hwaits hcancelled).2
      refine ⟨f', _, hplay ?_, hseen', Or.inr ⟨rfl, called_quiet hstands hwaits⟩⟩
      rintro ⟨_, hall⟩
      obtain ⟨c, hc, hnot⟩ := hrest
      exact hnot (hall c hc)

end Pending

theorem finalStatus_of {order : List (List ℕ)} {status : WorkflowRunStatus}
    (hplay : order.foldlM (observeBatch config env passes run.id outcome) db₀ = some db)
    (h : StandsAt run status db) :
    finalStatus config env passes run.id outcome db₀ order = some status := by
  rw [finalStatus, hplay]
  exact h.runStatus

/-- The agent runs of the children. -/
def IsAgent (children : List (NodeExecutionRow × ℕ)) (a : ℕ) : Prop := ∃ c ∈ children, c.2 = a

theorem Observes.isAgent {order : List (List ℕ)} (h : Observes (children.map (·.2)) order) :
    ∀ a ∈ [] ++ order.flatten, IsAgent children a := by
  intro a ha
  rw [List.nil_append, h.each.mem_iff, List.mem_map] at ha
  exact ha

theorem Observes.all {order : List (List ℕ)} (h : Observes (children.map (·.2)) order)
    {c : NodeExecutionRow × ℕ} (hc : c ∈ children) : c.2 ∈ [] ++ order.flatten := by
  rw [List.nil_append, h.each.mem_iff]
  exact List.mem_map_of_mem hc

/-- A run that no call works on keeps its status. -/
theorem final_closed (hfound : db₀.run? run.id = some run)
    (hclosed : reconcilable (db₀.queuePhase? run.id) run.status = false)
    (order : List (List ℕ)) :
    finalStatus config env passes run.id outcome db₀ order = some run.status := by
  have hstep : ∀ S B db, (∀ a ∈ S ++ B, True) → StandsAt run run.status db ∧ db.queue = db₀.queue →
      ∃ db', observeBatch config env passes run.id outcome db B = some db' ∧
        StandsAt run run.status db' ∧ db'.queue = db₀.queue := by
    intro S B db _ ⟨⟨r, hr, hrow⟩, hqueue⟩
    have hr' : (db.reach outcome B).run? run.id = some r := hr
    have hphase : (db.reach outcome B).queuePhase? run.id = db₀.queuePhase? run.id := by
      rw [Db.queuePhase?, Db.queue?, Db.queuePhase?, Db.queue?, ← hqueue]
      rfl
    refine ⟨db.reach outcome B, ?_, ⟨r, hr, hrow⟩, hqueue⟩
    rw [observeBatch, play_reconcileWorkflowRun_closed hr' (by rw [hphase, hrow.2.2.2, hclosed])]
    rfl
  have hall : ∀ a ∈ [] ++ order.flatten, True := fun _ _ => trivial
  obtain ⟨db', hplay, hstands, _⟩ := foldlM_observe
    (I := fun _ db => StandsAt run run.status db ∧ db.queue = db₀.queue) hstep hall
    ⟨⟨run, hfound, rfl, rfl, rfl, rfl⟩, rfl⟩
  exact finalStatus_of hplay hstands

/-- A failed run stays as it is. -/
theorem observe_stopped {status : WorkflowRunStatus} (hstands : StandsAt run status db)
    (hstatus : ∀ phase, reconcilable phase status = false) (B : List ℕ) :
    ∃ db', observeBatch config env passes run.id outcome db B = some db' ∧
      StandsAt run status db' := by
  obtain ⟨r, hr, hrow⟩ := hstands
  have hr' : (db.reach outcome B).run? run.id = some r := hr
  refine ⟨db.reach outcome B, ?_, r, hr, hrow⟩
  rw [observeBatch, play_reconcileWorkflowRun_closed hr' (by rw [hrow.2.2.2, hstatus])]
  rfl

section Awake
variable (hp : Beside db₀ run orchestration children outcome)
  (hopen : reconcilable (db₀.queuePhase? run.id) run.status = true)

/-- The agent runs in `S` were seen and the run is at one of some statuses. -/
def SeenAt (config : Config) (env : Surroundings) (db₀ : Db) (run : RunRow)
    (children : List (NodeExecutionRow × ℕ)) (outcome : ℕ → AgentRunState)
    (P : WorkflowRunStatus → Prop) (S : List ℕ) (db : Db) : Prop :=
  ∃ f status, Seen config env db₀ run children outcome S f db ∧ StandsAt run status db ∧ P status

include hp in
theorem seenAt_initial {P : WorkflowRunStatus → Prop} (h : P run.status) :
    SeenAt config env db₀ run children outcome P [] db₀ :=
  ⟨id, run.status, seen_initial, ⟨run, hp.found, rfl, rfl, rfl, rfl⟩, h⟩

include hp hopen in
/-- One failed agent run fails the run in every order. -/
theorem final_failed (hawake : run.status.isAwake = true) {c : NodeExecutionRow × ℕ}
    (hc : c ∈ children) (hfailure : (outcome c.2).status.isFailure = true)
    {order : List (List ℕ)} (horder : Observes (children.map (·.2)) order) :
    finalStatus config env passes run.id outcome db₀ order = some .failed := by
  have hstep : ∀ S B db, (∀ a ∈ S ++ B, IsAgent children a) →
      (SeenAt config env db₀ run children outcome (·.isAwake = true) S db ∧
          (∀ d ∈ children, d.2 ∈ S → (outcome d.2).status.isFailure = false) ∨
        StandsAt run .failed db) →
      ∃ db', observeBatch config env passes run.id outcome db B = some db' ∧
        (SeenAt config env db₀ run children outcome (·.isAwake = true) (S ++ B) db' ∧
            (∀ d ∈ children, d.2 ∈ S ++ B → (outcome d.2).status.isFailure = false) ∨
          StandsAt run .failed db') := by
    rintro S B db hsub (⟨⟨f, status, hseen, hstands, hstatus⟩, hnone⟩ | hstands)
    · have hopen' := reconcilable_of hopen (Or.inl hstatus)
      cases hfailed : (flags config env db₀ run children outcome S B f).failed with
      | true =>
        obtain ⟨f', db', hplay, _, hstands'⟩ := call_failed hp hseen hstands hsub hopen' hfailed
        rw [next_awake hstatus] at hstands'
        exact ⟨db', hplay, Or.inr hstands'⟩
      | false =>
        have hnone' : ∀ d ∈ children, d.2 ∈ S ++ B → (outcome d.2).status.isFailure = false := by
          intro d hd hmem
          by_cases hS : d.2 ∈ S
          · exact hnone d hd hS
          · rw [Bool.eq_false_iff] at hfailed ⊢
            intro hfail
            exact hfailed ((flags_failed hp hseen.sighted).mpr
              ⟨d, hd, hS, (List.mem_append.mp hmem).resolve_left hS, hfail⟩)
        have hrest : ∃ d ∈ children, d.2 ∉ S ++ B := by
          refine ⟨c, hc, fun hmem => ?_⟩
          rw [hnone' c hc hmem] at hfailure
          cases hfailure
        obtain ⟨f', db', hplay, hseen', hstands'⟩ := call_pending hp hseen hstands hsub hopen'
          hfailed hrest
        refine ⟨db', hplay, Or.inl ⟨?_, hnone'⟩⟩
        rcases hstands' with ⟨_, hstands'⟩ | ⟨_, hstands'⟩
        · rw [next_awake hstatus] at hstands'
          exact ⟨f', _, hseen', hstands', rfl⟩
        · exact ⟨f', _, hseen', hstands', hstatus⟩
    · obtain ⟨db', hplay, hstands'⟩ := observe_stopped hstands (fun phase => by simp [reconcilable]) B
      exact ⟨db', hplay, Or.inr hstands'⟩
  obtain ⟨db', hplay, ⟨_, hnone⟩ | hstands⟩ := foldlM_observe hstep horder.isAgent
    (Or.inl ⟨seenAt_initial hp hawake, fun d _ hmem => absurd hmem List.not_mem_nil⟩)
  · rw [hnone c hc (horder.all hc)] at hfailure
    cases hfailure
  · exact finalStatus_of hplay hstands

include hp in
/-- A router that always waits makes every later call wait. -/
theorem flags_waitsAlways {S B : List ℕ} {f : NodeExecutionRow → NodeExecutionRow}
    (hf : Sighted config env db₀ run children outcome S f) {c : NodeExecutionRow × ℕ}
    (hc : c ∈ children) (hwaits : waitsAlways config env run outcome c = true)
    (hmem : c.2 ∈ S ++ B) :
    (flags config env db₀ run children outcome S B f).awaitingHuman = true := by
  rw [flags_awaitingHuman hp hf]
  by_cases hS : c.2 ∈ S
  · exact ⟨c, hc, Or.inl ⟨hS, hwaits⟩⟩
  · exact ⟨c, hc, Or.inr (Or.inl ⟨hS, (List.mem_append.mp hmem).resolve_left hS,
      projection_waits_of_late (hp.routes c hc) hwaits⟩)⟩

include hp in
theorem flags_unfailed {S B : List ℕ} {f : NodeExecutionRow → NodeExecutionRow}
    (hf : Sighted config env db₀ run children outcome S f)
    (hnone : ∀ d ∈ children, (outcome d.2).status.isFailure = false) :
    (flags config env db₀ run children outcome S B f).failed = false := by
  rw [Bool.eq_false_iff]
  intro hfailed
  obtain ⟨d, hd, _, _, hfailure⟩ := (flags_failed hp hf).mp hfailed
  rw [hnone d hd] at hfailure
  cases hfailure

include hp hopen in
/-- Without failures a router that always waits makes the run wait in every order. -/
theorem final_waits (hawake : run.status.isAwake = true)
    (hnone : ∀ d ∈ children, (outcome d.2).status.isFailure = false) {c : NodeExecutionRow × ℕ}
    (hc : c ∈ children) (hwaits : waitsAlways config env run outcome c = true)
    {order : List (List ℕ)} (horder : Observes (children.map (·.2)) order) :
    finalStatus config env passes run.id outcome db₀ order = some .awaitingHuman := by
  have hstep : ∀ S B db, (∀ a ∈ S ++ B, IsAgent children a) →
      SeenAt config env db₀ run children outcome
        (fun status => status.isAwake = true ∧ (c.2 ∈ S → status = .awaitingHuman)) S db →
      ∃ db', observeBatch config env passes run.id outcome db B = some db' ∧
        SeenAt config env db₀ run children outcome (fun status => status.isAwake = true ∧
          (c.2 ∈ S ++ B → status = .awaitingHuman)) (S ++ B) db' := by
    rintro S B db hsub ⟨f, status, hseen, hstands, hstatus, _⟩
    have hopen' := reconcilable_of hopen (Or.inl hstatus)
    have hfailed := flags_unfailed hp hseen.sighted (B := B) hnone
    by_cases hmem : c.2 ∈ S ++ B
    · obtain ⟨f', db', hplay, hseen', hstands'⟩ := call_waits hp hseen hstands hsub hopen' hfailed
        (flags_waitsAlways hp hseen.sighted hc hwaits hmem)
      rw [next_awake hstatus] at hstands'
      exact ⟨db', hplay, f', _, hseen', hstands', rfl, fun _ => rfl⟩
    · obtain ⟨f', db', hplay, hseen', hstands'⟩ := call_pending hp hseen hstands hsub hopen'
        hfailed ⟨c, hc, hmem⟩
      refine ⟨db', hplay, ?_⟩
      rcases hstands' with ⟨_, hstands'⟩ | ⟨_, hstands'⟩
      · rw [next_awake hstatus] at hstands'
        exact ⟨f', _, hseen', hstands', rfl, fun h => absurd h hmem⟩
      · exact ⟨f', _, hseen', hstands', hstatus, fun h => absurd h hmem⟩
  obtain ⟨db', hplay, f, status, _, hstands, _, hstatus⟩ := foldlM_observe
    (I := fun S db => SeenAt config env db₀ run children outcome
      (fun status => status.isAwake = true ∧ (c.2 ∈ S → status = .awaitingHuman)) S db)
    hstep horder.isAgent (seenAt_initial hp ⟨hawake, fun hmem => absurd hmem List.not_mem_nil⟩)
  exact finalStatus_of hplay (hstatus (horder.all hc) ▸ hstands)

end Awake

section Cancelling
variable (hp : Beside db₀ run orchestration children outcome)
  (hopen : reconcilable (db₀.queuePhase? run.id) run.status = true)

include hp hopen in
/-- A run that is being cancelled stays so when no call sees a cancellation, or a router always
waits. -/
theorem final_cancelling (hstatus : run.status = .cancelling)
    (hquiet : (∀ c ∈ children, (outcome c.2).status ≠ .cancelled) ∨
      ∃ c ∈ children, waitsAlways config env run outcome c = true)
    {order : List (List ℕ)} (horder : Observes (children.map (·.2)) order) :
    finalStatus config env (passes + 1) run.id outcome db₀ order = some .cancelling := by
  have hstep : ∀ S B db, (∀ a ∈ S ++ B, IsAgent children a) →
      SeenAt config env db₀ run children outcome (· = .cancelling) S db →
      ∃ db', observeBatch config env (passes + 1) run.id outcome db B = some db' ∧
        SeenAt config env db₀ run children outcome (· = .cancelling) (S ++ B) db' := by
    rintro S B db hsub ⟨f, status, hseen, hstands, rfl⟩
    have hopen' := reconcilable_of hopen (Or.inr (rfl : WorkflowRunStatus.cancelling = .cancelling))
    cases hfailed : (flags config env db₀ run children outcome S B f).failed with
    | true =>
      obtain ⟨f', db', hplay, hseen', hstands'⟩ := call_failed hp hseen hstands hsub hopen' hfailed
      exact ⟨db', hplay, f', _, hseen', hstands', rfl⟩
    | false =>
      cases hwaits : (flags config env db₀ run children outcome S B f).awaitingHuman with
      | true =>
        obtain ⟨f', db', hplay, hseen', hstands'⟩ := call_waits hp hseen hstands hsub hopen' hfailed
          hwaits
        exact ⟨db', hplay, f', _, hseen', hstands', rfl⟩
      | false =>
        rcases hquiet with hnone | ⟨c, hc, halways⟩
        · have hcancelled : (flags config env db₀ run children outcome S B f).cancelled = false := by
            rw [Bool.eq_false_iff]
            intro hcancelled
            obtain ⟨d, hd, _, _, hcancel⟩ := (flags_cancelled hp hseen.sighted).mp hcancelled
            exact hnone d hd hcancel
          obtain ⟨f', hseen', _⟩ := called_seen hp hseen hsub
          have hquiet := called_quiet hstands hwaits
          obtain ⟨hdrive, hstay⟩ := call_succeeded hp hseen hstands hsub hopen' hfailed hwaits
            hcancelled
          by_cases hall : asked children f ≠ [] ∧ ∀ c ∈ children, c.2 ∈ S ++ B
          · -- The run does not become running, and a cancelling run is not driven.
            have hstands' := hquiet.updateRunStatus .running none none
            obtain ⟨r, hr, hrow⟩ := hstands'
            refine ⟨(called config env db₀ run children outcome S B f db).updateRunStatus run.id
              .running none none, (hdrive hall).trans ?_, f', _, ⟨hseen'.sighted, hseen'.rows,
              hseen'.orchestration, hseen'.queue, hseen'.nextId⟩, ⟨r, hr, hrow⟩, rfl⟩
            rw [play_driveWorkflowRun_stopped hr (by rw [hrow.2.2.2]; rfl)]
            rfl
          · exact ⟨_, hstay hall, f', _, hseen', hquiet, rfl⟩
        · have hrest : ∃ d ∈ children, d.2 ∉ S ++ B := by
            refine ⟨c, hc, fun hmem => ?_⟩
            rw [flags_waitsAlways hp hseen.sighted hc halways hmem] at hwaits
            cases hwaits
          obtain ⟨f', db', hplay, hseen', hstands'⟩ := call_pending hp hseen hstands hsub hopen'
            hfailed hrest
          refine ⟨db', hplay, f', _, hseen', ?_, rfl⟩
          rcases hstands' with ⟨_, hstands'⟩ | ⟨_, hstands'⟩
          · exact hstands'
          · exact hstands'
  obtain ⟨db', hplay, f, status, _, hstands, rfl⟩ := foldlM_observe hstep horder.isAgent
    (seenAt_initial hp hstatus)
  exact finalStatus_of hplay hstands

end Cancelling

/-- The last batch of an order is seen after all others. -/
theorem Observes.cases {agents : List ℕ} {order : List (List ℕ)} (h : Observes agents order) :
    agents = [] ∧ order = [] ∨ ∃ first last, order = first ++ [last] ∧ last ≠ [] ∧
      (first.flatten ++ last).Perm agents := by
  rcases List.eq_nil_or_concat order with rfl | ⟨first, last, rfl⟩
  · exact Or.inl ⟨List.perm_nil.mp h.each.symm, rfl⟩
  · refine Or.inr ⟨first, last, List.concat_eq_append, ?_, ?_⟩
    · rintro rfl
      exact h.last (by simp)
    · simpa using h.each

section Last
variable {S B : List ℕ} {f : NodeExecutionRow → NodeExecutionRow}
  (hp : Beside db₀ run orchestration children outcome)
  (hopen : reconcilable (db₀.queuePhase? run.id) run.status = true)

theorem finalStatus_append (first : List (List ℕ)) (last : List ℕ) :
    finalStatus config env passes run.id outcome db₀ (first ++ [last]) =
      (first.foldlM (observeBatch config env passes run.id outcome) db₀).bind fun db =>
        (observeBatch config env passes run.id outcome db last).bind (·.runStatus? run.id) := by
  rw [finalStatus, List.foldlM_append]
  cases first.foldlM (observeBatch config env passes run.id outcome) db₀ with
  | none => rfl
  | some db =>
    change ([last].foldlM (observeBatch config env passes run.id outcome) db).bind _ = _
    rw [List.foldlM_cons, Option.bind_some]
    cases observeBatch config env passes run.id outcome db last with
    | none => rfl
    | some db' => rfl

include hp in
/-- A child that ends with the last batch was not seen before. -/
theorem last_child {first : List (List ℕ)} {last : List ℕ} (hlast : last ≠ [])
    (hperm : (first.flatten ++ last).Perm (children.map (·.2))) :
    ∃ c ∈ children, c.2 ∈ last ∧ c.2 ∉ first.flatten := by
  obtain ⟨b, hb⟩ := List.exists_mem_of_ne_nil last hlast
  have hmem := hperm.mem_iff.mp (List.mem_append_right first.flatten hb)
  obtain ⟨c, hc, rfl⟩ := List.mem_map.mp hmem
  have hnodup := hperm.nodup_iff.mpr hp.agents
  exact ⟨c, hc, hb, fun hfirst => List.disjoint_of_nodup_append hnodup hfirst hb⟩

include hp in
/-- Cancelled agent runs make a call wait only for those that still ask. -/
theorem asks_of_waits (hf : Sighted config env db₀ run children outcome S f)
    (hall : ∀ c ∈ children, (outcome c.2).status = .cancelled)
    (h : (flags config env db₀ run children outcome S B f).awaitingHuman = true) :
    ∃ c ∈ children, c.2 ∉ S ++ B ∧ asksFirst db₀ c = true := by
  obtain ⟨c, hc, ⟨_, hwaits⟩ | ⟨_, _, hwaits⟩ | hasks⟩ := (flags_awaitingHuman hp hf).mp h
  · have hsucceeded := (projection_waits hwaits).1
    rw [hall c hc] at hsucceeded
    cases hsucceeded
  · have hsucceeded := (projection_waits hwaits).1
    rw [hall c hc] at hsucceeded
    cases hsucceeded
  · exact ⟨c, hc, hasks⟩

include hp in
/-- The call that sees the last cancellations cancels the run, unless another execution is active. -/
theorem call_lastCancelled (hall : ∀ c ∈ children, (outcome c.2).status = .cancelled)
    {status : WorkflowRunStatus} (hseen : Seen config env db₀ run children outcome S f db)
    (hstands : StandsAt run status db) (hopen : reconcilable (db₀.queuePhase? run.id) status = true)
    (hperm : (S ++ B).Perm (children.map (·.2))) (hnew : ∃ c ∈ children, c.2 ∉ S ∧ c.2 ∈ B) :
    ∃ db' status', observeBatch config env passes run.id outcome db B = some db' ∧
      StandsAt run status' db' ∧
      (StillOpen db₀ run children outcome (children.map (·.2)) → status' = status) ∧
      (¬ StillOpen db₀ run children outcome (children.map (·.2)) →
        status' = status.next .canceled) := by
  have hnone : ¬∃ c ∈ children, c.2 ∉ S ++ B := by
    rintro ⟨d, hd, hnot⟩
    exact hnot (hperm.mem_iff.mpr (List.mem_map_of_mem hd))
  have hunfailed : ∀ d ∈ children, (outcome d.2).status.isFailure = false := by
    intro d hd
    rw [hall d hd]
    rfl
  have hnowait : (flags config env db₀ run children outcome S B f).awaitingHuman = false := by
    rw [Bool.eq_false_iff]
    intro hwaits
    obtain ⟨d, hd, hnot, _⟩ := asks_of_waits hp hseen.sighted hall hwaits
    exact hnone ⟨d, hd, hnot⟩
  obtain ⟨c, hc, hcS, hcB⟩ := hnew
  obtain ⟨f', db', status', hplay, _, hstands', hsame, hcanceled⟩ := call_cancelled hp hseen
    hstands (fun a ha => List.mem_map.mp (hperm.mem_iff.mp ha)) hopen
    (flags_unfailed hp hseen.sighted hunfailed) hnowait
    ((flags_cancelled hp hseen.sighted).mpr ⟨c, hc, hcS, hcB, hall c hc⟩)
  have hstill : StillOpen db₀ run children outcome (S ++ B) ↔
      StillOpen db₀ run children outcome (children.map (·.2)) := by
    rw [StillOpen, StillOpen, reach_congr fun a => hperm.mem_iff]
  refine ⟨db', status', hplay, hstands', fun h => hsame (Or.inr (hstill.mpr h)), fun h => hcanceled ?_⟩
  rintro (hsome | hsome)
  · exact hnone hsome
  · exact h (hstill.mp hsome)

/-- The run is as it was, or waits because one of its agent runs was asked something. -/
def WaitsAtMost (db₀ : Db) (run : RunRow) (children : List (NodeExecutionRow × ℕ))
    (status : WorkflowRunStatus) : Prop :=
  status = run.status ∨
    status = run.status.next .awaitingHuman ∧ ∃ c ∈ children, asksFirst db₀ c = true

theorem next_waits_waits (status : WorkflowRunStatus) :
    (status.next .awaitingHuman).next .awaitingHuman = status.next .awaitingHuman := by
  cases status <;> rfl

include hopen in
theorem WaitsAtMost.reconcilable {status : WorkflowRunStatus}
    (h : WaitsAtMost db₀ run children status) :
    reconcilable (db₀.queuePhase? run.id) status = true := by
  rcases h with rfl | ⟨rfl, _⟩
  · exact hopen
  · rcases reconcilable_cases hopen with hawake | hcancelling
    · exact reconcilable_of hopen (Or.inl (by rw [next_awake hawake]; rfl))
    · exact reconcilable_of hopen (Or.inr (by rw [hcancelling]; rfl))

include hp hopen in
/-- A call before the last one leaves a run whose agent runs were all cancelled as it was, or waiting. -/
theorem seenAt_batch (hall : ∀ c ∈ children, (outcome c.2).status = .cancelled)
    (h : SeenAt config env db₀ run children outcome (WaitsAtMost db₀ run children) S db)
    (hagents : ∀ a ∈ S ++ B, ∃ c ∈ children, c.2 = a) (hlater : ∃ c ∈ children, c.2 ∉ S ++ B) :
    ∃ db', observeBatch config env passes run.id outcome db B = some db' ∧
      SeenAt config env db₀ run children outcome (WaitsAtMost db₀ run children) (S ++ B) db' := by
  obtain ⟨f, status, hseen, hstands, hbefore⟩ := h
  have hunfailed : ∀ d ∈ children, (outcome d.2).status.isFailure = false := by
    intro d hd
    rw [hall d hd]
    rfl
  obtain ⟨f', db', hplay, hseen', hstands'⟩ := call_pending hp hseen hstands hagents
    (hbefore.reconcilable hopen) (flags_unfailed hp hseen.sighted hunfailed) hlater
  rcases hstands' with ⟨hwaits, hstands'⟩ | ⟨_, hstands'⟩
  · obtain ⟨d, hd, _, hasks⟩ := asks_of_waits hp hseen.sighted hall hwaits
    refine ⟨db', hplay, f', _, hseen', hstands', Or.inr ⟨?_, d, hd, hasks⟩⟩
    rcases hbefore with rfl | ⟨rfl, _⟩
    · rfl
    · exact next_waits_waits run.status
  · exact ⟨db', hplay, f', _, hseen', hstands', hbefore⟩

include hp hopen in
/-- When all agent runs were cancelled, so is the run, unless another execution is active and keeps a
run that was asked something waiting. -/
theorem final_allCancelled (hall : ∀ c ∈ children, (outcome c.2).status = .cancelled)
    (hkeeps : run.status.next .awaitingHuman = run.status ∨
      ¬ StillOpen db₀ run children outcome (children.map (·.2)) ∨
      ∀ c ∈ children, asksFirst db₀ c = false) :
    ∃ status, ∀ order, Observes (children.map (·.2)) order →
      finalStatus config env passes run.id outcome db₀ order = some status := by
  by_cases hnil : children = []
  · refine ⟨run.status, fun order horder => ?_⟩
    rcases horder.cases with ⟨_, rfl⟩ | ⟨first, last, rfl, hlast, hperm⟩
    · exact finalStatus_of rfl ⟨run, hp.found, rfl, rfl, rfl, rfl⟩
    · obtain ⟨c, hc, _⟩ := last_child hp hlast hperm
      rw [hnil] at hc
      cases hc
  classical
  refine ⟨if StillOpen db₀ run children outcome (children.map (·.2)) then run.status
    else run.status.next .canceled, fun order horder => ?_⟩
  rcases horder.cases with ⟨hagents, _⟩ | ⟨first, last, rfl, hlast, hperm⟩
  · exact absurd (List.map_eq_nil_iff.mp hagents) hnil
  obtain ⟨c, hc, hcl, hcf⟩ := last_child hp hlast hperm
  have hstep : ∀ S B db, (∀ a ∈ S ++ B, a ∈ first.flatten) →
      SeenAt config env db₀ run children outcome (WaitsAtMost db₀ run children) S db →
      ∃ db', observeBatch config env passes run.id outcome db B = some db' ∧
        SeenAt config env db₀ run children outcome (WaitsAtMost db₀ run children) (S ++ B) db' := by
    intro S B db hsub h
    apply seenAt_batch hp hopen hall h _ ⟨c, hc, fun hmem => hcf (hsub _ hmem)⟩
    intro a ha
    exact List.mem_map.mp (hperm.mem_iff.mp (List.mem_append_left last (hsub a ha)))
  have hfirst : ∀ a ∈ [] ++ first.flatten, a ∈ first.flatten := fun a ha => ha
  obtain ⟨db, hplay, f, status, hseen, hstands, hbefore⟩ := foldlM_observe hstep hfirst
    (seenAt_initial hp (Or.inl rfl))
  rw [finalStatus_append, hplay, Option.bind_some]
  rw [List.nil_append] at hseen
  obtain ⟨db', status', hplay', hstands', hsame, hcanceled⟩ :=
    call_lastCancelled hp hall hseen hstands (hbefore.reconcilable hopen) hperm ⟨c, hc, hcf, hcl⟩
  rw [hplay', Option.bind_some, hstands'.runStatus]
  split_ifs with hstill
  · rw [hsame hstill]
    rcases hbefore with rfl | ⟨rfl, d, hd, hasks⟩
    · rfl
    · rcases hkeeps with hkeeps | hclosed | hnobody
      · rw [hkeeps]
      · exact absurd hstill hclosed
      · rw [hnobody d hd] at hasks
        cases hasks
  · rw [hcanceled hstill]
    rcases hbefore with rfl | ⟨rfl, _⟩
    · rfl
    · cases run.status <;> rfl

end Last

/-- Before the last call: the executions that were seen have ended, and what is left leads to one
database. -/
def Succeeding (config : Config) (env : Surroundings) (db₀ : Db) (run : RunRow)
    (children : List (NodeExecutionRow × ℕ)) (outcome : ℕ → AgentRunState) (S : List ℕ)
    (db : Db) : Prop :=
  ∃ f status, Seen config env db₀ run children outcome S f db ∧ StandsAt run status db ∧
    status.isAwake = true ∧ (∀ c ∈ children, c.2 ∈ S → nodeTerminal (f c.1).status = true) ∧
    Leads config env db₀ run children outcome S db

section Succeeded
variable {S B : List ℕ} {f : NodeExecutionRow → NodeExecutionRow}
  (hp : Beside db₀ run orchestration children outcome)
  (hopen : reconcilable (db₀.queuePhase? run.id) run.status = true)
  (hall : ∀ c ∈ children, (outcome c.2).status = .succeeded)
  (hwaits : ∀ c ∈ children, waitsFirst config env run outcome c = false)

include hp hwaits in
theorem succeeding_initial (hawake : run.status.isAwake = true) :
    Succeeding config env db₀ run children outcome [] db₀ :=
  ⟨id, run.status, seen_initial, ⟨run, hp.found, rfl, rfl, rfl, rfl⟩, hawake,
    fun _ _ hmem => absurd hmem List.not_mem_nil, leads_initial hp hwaits⟩

include hall in
theorem unfailed_of_succeeded : ∀ c ∈ children, (outcome c.2).status.isFailure = false := by
  intro c hc
  rw [hall c hc]
  rfl

include hp hall in
theorem flags_uncancelled (hf : Sighted config env db₀ run children outcome S f) :
    (flags config env db₀ run children outcome S B f).cancelled = false := by
  rw [Bool.eq_false_iff]
  intro hflag
  obtain ⟨c, hc, _, _, hcancelled⟩ := (flags_cancelled hp hf).mp hflag
  rw [hall c hc] at hcancelled
  cases hcancelled

include hp hwaits in
theorem flags_lastQuiet (hf : Sighted config env db₀ run children outcome S f)
    (hlast : ∀ c ∈ children, c.2 ∈ S ++ B) :
    (flags config env db₀ run children outcome S B f).awaitingHuman = false := by
  rw [Bool.eq_false_iff]
  intro hflag
  obtain ⟨c, hc, ⟨_, halways⟩ | ⟨_, _, hlook⟩ | ⟨hnot, _⟩⟩ := (flags_awaitingHuman hp hf).mp hflag
  · have hlook := projection_waits_of_late (hp.routes c hc) halways
    rw [← waitsFirst, hwaits c hc] at hlook
    cases hlook
  · rw [hwaits c hc] at hlook
    cases hlook
  · exact hnot (hlast c hc)

include hp hopen hall hwaits in
/-- A call before the last one does not drive the run. -/
theorem Succeeding.batch (h : Succeeding config env db₀ run children outcome S db)
    (hagents : ∀ a ∈ S ++ B, ∃ c ∈ children, c.2 = a) {c : NodeExecutionRow × ℕ} (hc : c ∈ children)
    (hlater : c.2 ∉ S ++ B) :
    ∃ db', observeBatch config env passes run.id outcome db B = some db' ∧
      Succeeding config env db₀ run children outcome (S ++ B) db' := by
  obtain ⟨f, status, hseen, hstands, hstatus, hended, hleads⟩ := h
  have hopen' := reconcilable_of hopen (Or.inl hstatus)
  have hfailed := flags_unfailed hp hseen.sighted (B := B) (unfailed_of_succeeded hall)
  obtain ⟨f', hseen', hended'⟩ := called_seen hp hseen hagents
  have hended'' := fun d hd hT => hended' d hd hT fun hactive =>
    hseen.quiet hp hwaits hended hd hactive
  have hbatch := hleads.batch (B := B) hp hwaits hseen hended
  cases hflag : (flags config env db₀ run children outcome S B f).awaitingHuman with
  | true =>
    obtain ⟨_, db', hplay, _, hstands'⟩ := call_waits hp hseen hstands hagents hopen' hfailed hflag
    have hplay' : observeBatch config env passes run.id outcome db B = _ :=
      observe_waits hp hseen hstands hagents hopen' hfailed hflag
    obtain rfl := Option.some.inj (hplay.symm.trans hplay')
    refine ⟨_, hplay', f', _, ⟨hseen'.sighted, hseen'.rows, hseen'.orchestration, hseen'.queue,
      hseen'.nextId⟩, hstands', ?_, hended'', hbatch.await⟩
    rw [next_awake hstatus]
    rfl
  | false =>
    have hplay : _ → observeBatch config env passes run.id outcome db B = _ :=
      (call_succeeded hp hseen hstands hagents hopen' hfailed hflag
        (flags_uncancelled hp hall hseen.sighted)).2
    refine ⟨_, hplay ?_, f', status, hseen', called_quiet hstands hflag, hstatus, hended'', hbatch⟩
    rintro ⟨_, hseenAll⟩
    exact hlater (hseenAll c hc)

include hp hopen hall hwaits in
/-- The last call drives the database that everything led to. -/
theorem Succeeding.last (h : Succeeding config env db₀ run children outcome S db)
    (hperm : (S ++ B).Perm (children.map (·.2))) {c : NodeExecutionRow × ℕ} (hc : c ∈ children)
    (hnew : c.2 ∉ S) :
    observeBatch config env passes run.id outcome db B =
      ((driveWorkflowRun config run.id run.graph run.inputText passes).play (Stmt.observe config env)
        { db₀ with
          nodeExecutions := (db₀.projectAll config env run.id run.graph outcome children).nodeExecutions
          runs := (db₀.updateRunStatus run.id .running none none).runs
          orchestration := (db₀.reach outcome (children.map (·.2))).orchestration }).map
        Prod.snd := by
  obtain ⟨f, status, hseen, hstands, hstatus, hended, hleads⟩ := h
  have hagents : ∀ a ∈ S ++ B, ∃ c ∈ children, c.2 = a :=
    fun a ha => List.mem_map.mp (hperm.mem_iff.mp ha)
  have hlast : ∀ d ∈ children, d.2 ∈ S ++ B :=
    fun d hd => hperm.mem_iff.mpr (List.mem_map_of_mem hd)
  have hasked : asked children f ≠ [] := by
    intro hempty
    have hmem := asked_unseen hp hseen.sighted hc hnew
    rw [hempty] at hmem
    cases hmem
  have hdrive : _ → observeBatch config env passes run.id outcome db B = _ :=
    (call_succeeded hp hseen hstands hagents (reconcilable_of hopen (Or.inl hstatus))
      (flags_unfailed hp hseen.sighted (unfailed_of_succeeded hall))
      (flags_lastQuiet hp hwaits hseen.sighted hlast)
      (flags_uncancelled hp hall hseen.sighted)).1
  rw [hdrive ⟨hasked, hlast⟩, (hleads.batch hp hwaits hseen hended).all hperm]

include hp hopen hall hwaits in
/-- When all agent runs succeed and no router waits, every order drives the same database. -/
theorem final_succeeded (hawake : run.status.isAwake = true) :
    ∃ status, ∀ order, Observes (children.map (·.2)) order →
      finalStatus config env passes run.id outcome db₀ order = status := by
  by_cases hnil : children = []
  · refine ⟨some run.status, fun order horder => ?_⟩
    rcases horder.cases with ⟨_, rfl⟩ | ⟨first, last, rfl, hlast, hperm⟩
    · exact finalStatus_of rfl ⟨run, hp.found, rfl, rfl, rfl, rfl⟩
    · obtain ⟨c, hc, _⟩ := last_child hp hlast hperm
      rw [hnil] at hc
      cases hc
  refine ⟨(((driveWorkflowRun config run.id run.graph run.inputText passes).play
    (Stmt.observe config env) { db₀ with
      nodeExecutions := (db₀.projectAll config env run.id run.graph outcome children).nodeExecutions
      runs := (db₀.updateRunStatus run.id .running none none).runs
      orchestration := (db₀.reach outcome (children.map (·.2))).orchestration }).map
        Prod.snd).bind (·.runStatus? run.id), fun order horder => ?_⟩
  rcases horder.cases with ⟨hagents, _⟩ | ⟨first, last, rfl, hlast, hperm⟩
  · exact absurd (List.map_eq_nil_iff.mp hagents) hnil
  obtain ⟨c, hc, hcl, hcf⟩ := last_child hp hlast hperm
  have hstep : ∀ S B db, (∀ a ∈ S ++ B, a ∈ first.flatten) →
      Succeeding config env db₀ run children outcome S db →
      ∃ db', observeBatch config env passes run.id outcome db B = some db' ∧
        Succeeding config env db₀ run children outcome (S ++ B) db' := by
    intro S B db hsub h
    apply h.batch hp hopen hall hwaits _ hc fun hmem => hcf (hsub _ hmem)
    intro a ha
    exact List.mem_map.mp (hperm.mem_iff.mp (List.mem_append_left last (hsub a ha)))
  have hfirst : ∀ a ∈ [] ++ first.flatten, a ∈ first.flatten := fun a ha => ha
  obtain ⟨db, hplay, hsucceeding⟩ := foldlM_observe hstep hfirst (succeeding_initial hp hwaits hawake)
  rw [finalStatus_append, hplay, Option.bind_some, hsucceeding.last hp hopen hall hwaits hperm hc hcf]

end Succeeded

section Necessary
variable (hp : Beside db₀ run orchestration children outcome)
  (hopen : reconcilable (db₀.queuePhase? run.id) run.status = true)
  (hunfailed : run.status = .cancelling ∨
    ∀ c ∈ children, (outcome c.2).status.isFailure = false)

include hp hopen hunfailed in
/-- After a first batch the run can still be canceled. -/
theorem observe_first {B : List ℕ} (hsub : ∀ a ∈ [] ++ B, ∃ c ∈ children, c.2 = a)
    (hrest : ∃ c ∈ children, c.2 ∉ [] ++ B) :
    ∃ f db status, [B].foldlM (observeBatch config env passes run.id outcome) db₀ = some db ∧
      Seen config env db₀ run children outcome ([] ++ B) f db ∧ StandsAt run status db ∧
      (status.isAwake = true ∧ run.status.isAwake = true ∨
        status = .cancelling ∧ run.status = .cancelling) := by
  have hstands : StandsAt run run.status db₀ := ⟨run, hp.found, rfl, rfl, rfl, rfl⟩
  have hfold : ∀ {db}, observeBatch config env passes run.id outcome db₀ B = some db →
      [B].foldlM (observeBatch config env passes run.id outcome) db₀ = some db := by
    intro db h
    rw [List.foldlM_cons, h]
    rfl
  have hseen : Seen config env db₀ run children outcome [] id db₀ := seen_initial
  rcases reconcilable_cases hopen with hawake | hcancelling
  · have hnone := hunfailed.resolve_left fun h => by
      rw [h] at hawake
      cases hawake
    obtain ⟨f, db, hplay, hseen', hstands'⟩ := call_pending hp hseen hstands hsub hopen
      (flags_unfailed hp hseen.sighted hnone) hrest
    rcases hstands' with ⟨_, hstands'⟩ | ⟨_, hstands'⟩
    · rw [next_awake hawake] at hstands'
      exact ⟨f, db, _, hfold hplay, hseen', hstands', Or.inl ⟨rfl, hawake⟩⟩
    · exact ⟨f, db, _, hfold hplay, hseen', hstands', Or.inl ⟨hawake, hawake⟩⟩
  · cases hfailed : (flags config env db₀ run children outcome [] B id).failed with
    | true =>
      obtain ⟨f, db, hplay, hseen', hstands'⟩ := call_failed hp hseen hstands hsub hopen hfailed
      rw [hcancelling] at hstands'
      exact ⟨f, db, _, hfold hplay, hseen', hstands', Or.inr ⟨rfl, hcancelling⟩⟩
    | false =>
      obtain ⟨f, db, hplay, hseen', hstands'⟩ := call_pending hp hseen hstands hsub hopen hfailed
        hrest
      rw [hcancelling] at hstands'
      rcases hstands' with ⟨_, hstands'⟩ | ⟨_, hstands'⟩
      · exact ⟨f, db, _, hfold hplay, hseen', hstands', Or.inr ⟨rfl, hcancelling⟩⟩
      · exact ⟨f, db, _, hfold hplay, hseen', hstands', Or.inr ⟨rfl, hcancelling⟩⟩

variable {X Y : List ℕ} (hperm : (X ++ Y).Perm (children.map (·.2)))
  (hX : ∀ c ∈ children, c.2 ∈ X → (outcome c.2).status ≠ .cancelled)
  (hY : ∀ c ∈ children, c.2 ∈ Y → (outcome c.2).status = .cancelled)

include hp hopen hunfailed hperm hX hY in
/-- Cancellations that are seen last cancel the run. -/
theorem final_cancelled_last (hne : ∃ c ∈ children, c.2 ∈ Y)
    (hwaits : ∀ c ∈ children, waitsAlways config env run outcome c = false)
    (halone : ∀ n ∈ db₀.ownExecutions run.id, nodeActive n.status = true →
      ∃ c ∈ children, c.1 = n) :
    finalStatus config env passes run.id outcome db₀ ([X] ++ [Y]) = some .canceled := by
  obtain ⟨c, hc, hcY⟩ := hne
  have hcX : c.2 ∉ X := fun hmem => hX c hc hmem (hY c hc hcY)
  have hmem : ∀ a ∈ X ++ Y, ∃ c ∈ children, c.2 = a :=
    fun a ha => List.mem_map.mp (hperm.mem_iff.mp ha)
  obtain ⟨f, db, status, hplay, hseen, hstands, hstatus⟩ := @observe_first config env passes db₀ run
    orchestration children outcome hp hopen hunfailed X
    (fun a ha => hmem a (List.mem_append_left Y ha)) ⟨c, hc, hcX⟩
  rw [List.nil_append] at hseen
  have hopen' : reconcilable (db₀.queuePhase? run.id) status = true :=
    reconcilable_of hopen (hstatus.imp And.left And.left)
  have hf := hseen.sighted
  have hfailed : (flags config env db₀ run children outcome X Y f).failed = false := by
    rw [Bool.eq_false_iff]
    intro hflag
    obtain ⟨d, hd, _, hdY, hfailure⟩ := (flags_failed hp hf).mp hflag
    rw [hY d hd hdY] at hfailure
    cases hfailure
  have hnowait : (flags config env db₀ run children outcome X Y f).awaitingHuman = false := by
    rw [Bool.eq_false_iff]
    intro hflag
    obtain ⟨d, hd, ⟨_, halways⟩ | ⟨_, hdY, hfirst⟩ | ⟨hnot, _⟩⟩ := (flags_awaitingHuman hp hf).mp hflag
    · rw [hwaits d hd] at halways
      cases halways
    · have hsucceeded := (projection_waits hfirst).1
      rw [hY d hd hdY] at hsucceeded
      cases hsucceeded
    · exact hnot (hperm.mem_iff.mpr (List.mem_map_of_mem hd))
  obtain ⟨f', db', status', hplay', _, hstands', _, hcanceled⟩ := call_cancelled hp hseen hstands
    hmem hopen' hfailed hnowait ((flags_cancelled hp hf).mpr ⟨c, hc, hcX, hcY, hY c hc hcY⟩)
  have hend : status' = .canceled := by
    rw [hcanceled]
    · rcases hstatus with ⟨hawake, _⟩ | ⟨rfl, _⟩
      · exact next_awake hawake _
      · rfl
    · rintro (⟨d, hd, hnot⟩ | ⟨n, hn, hnot, hactive, _⟩)
      · exact hnot (hperm.mem_iff.mpr (List.mem_map_of_mem hd))
      · obtain ⟨d, hd, heq⟩ := halone n hn hactive
        exact hnot d hd heq
  rw [finalStatus_append, hplay, Option.bind_some, hplay', Option.bind_some, hstands'.runStatus,
    hend]

include hp hopen hunfailed hperm hX hY in
/-- Cancellations that are seen before the rest are forgotten. -/
theorem final_cancelled_first (hne : ∃ c ∈ children, c.2 ∈ X) :
    finalStatus config env passes run.id outcome db₀ ([Y] ++ [X]) ≠ some .canceled := by
  obtain ⟨c, hc, hcX⟩ := hne
  have hcY : c.2 ∉ Y := fun hmem => hX c hc hcX (hY c hc hmem)
  have hmem : ∀ a ∈ Y ++ X, ∃ c ∈ children, c.2 = a := by
    intro a ha
    refine List.mem_map.mp (hperm.mem_iff.mp ?_)
    rw [List.mem_append] at ha ⊢
    exact ha.symm
  obtain ⟨f, db, status, hplay, hseen, hstands, hstatus⟩ := @observe_first config env passes db₀ run
    orchestration children outcome hp hopen hunfailed Y
    (fun a ha => hmem a (List.mem_append_left X ha)) ⟨c, hc, hcY⟩
  rw [List.nil_append] at hseen
  have hf := hseen.sighted
  have hopen' : reconcilable (db₀.queuePhase? run.id) status = true :=
    reconcilable_of hopen (hstatus.imp And.left And.left)
  have hnext : ∀ written, written ≠ .canceled → status.next written ≠ .canceled := by
    intro written hwritten
    rcases hstatus with ⟨hawake, _⟩ | ⟨rfl, _⟩
    · rw [next_awake hawake]
      exact hwritten
    · intro h
      cases written <;> simp [WorkflowRunStatus.next, WorkflowRunStatus.isTerminal] at h hwritten
  rw [finalStatus_append, hplay, Option.bind_some]
  cases hfailed : (flags config env db₀ run children outcome Y X f).failed with
  | true =>
    obtain ⟨f', db', hplay', _, hstands'⟩ := call_failed hp hseen hstands hmem hopen' hfailed
    rw [hplay', Option.bind_some, hstands'.runStatus]
    exact fun h => hnext .failed (by simp) (Option.some.inj h)
  | false =>
    cases hwaits : (flags config env db₀ run children outcome Y X f).awaitingHuman with
    | true =>
      obtain ⟨f', db', hplay', _, hstands'⟩ := call_waits hp hseen hstands hmem hopen' hfailed hwaits
      rw [hplay', Option.bind_some, hstands'.runStatus]
      exact fun h => hnext .awaitingHuman (by simp) (Option.some.inj h)
    | false =>
      have hcancelled : (flags config env db₀ run children outcome Y X f).cancelled = false := by
        rw [Bool.eq_false_iff]
        intro hflag
        obtain ⟨d, hd, _, hdX, hcancel⟩ := (flags_cancelled hp hf).mp hflag
        exact hX d hd hdX hcancel
      have hasked : asked children f ≠ [] := by
        intro hempty
        have hin := asked_unseen hp hf hc hcY
        rw [hempty] at hin
        cases hin
      have hall : ∀ d ∈ children, d.2 ∈ Y ++ X := by
        intro d hd
        have hin := hperm.mem_iff.mpr (List.mem_map_of_mem hd)
        rw [List.mem_append] at hin ⊢
        exact hin.symm
      have hdrive : _ → observeBatch config env passes run.id outcome db X = _ :=
        (call_succeeded hp hseen hstands hmem hopen' hfailed hwaits hcancelled).1
      rw [hdrive ⟨hasked, hall⟩]
      intro hfinal
      obtain ⟨db', hdriven, hcanceled⟩ := Option.bind_eq_some_iff.mp hfinal
      obtain ⟨⟨r, db''⟩, hplayed, rfl⟩ := Option.map_eq_some_iff.mp hdriven
      refine drive_uncanceled hplayed ?_ hcanceled
      rw [((called_quiet hstands hwaits).updateRunStatus .running none none).runStatus]
      exact fun h => hnext .running (by simp) (Option.some.inj h)

end Necessary

/-- All orders of observation end with the same status. -/
def OrderFree (config : Config) (env : Surroundings) (passes : ℕ) (db₀ : Db) (run : RunRow)
    (children : List (NodeExecutionRow × ℕ)) (outcome : ℕ → AgentRunState) : Prop :=
  ∀ order order', Observes (children.map (·.2)) order → Observes (children.map (·.2)) order' →
    finalStatus config env passes run.id outcome db₀ order =
      finalStatus config env passes run.id outcome db₀ order'

/-- The run is left no choice: no call works on it, an open run has a failure, a router always waits,
all are cancelled and the run keeps its status while one asks for something, or none is cancelled and
no router waits at its first look only. -/
def Agreeing (config : Config) (env : Surroundings) (db₀ : Db) (run : RunRow)
    (children : List (NodeExecutionRow × ℕ)) (outcome : ℕ → AgentRunState) : Prop :=
  reconcilable (db₀.queuePhase? run.id) run.status = false ∨
    (run.status ≠ .cancelling ∧ ∃ c ∈ children, (outcome c.2).status.isFailure = true) ∨
    (∃ c ∈ children, waitsAlways config env run outcome c = true) ∨
    ((∀ c ∈ children, (outcome c.2).status = .cancelled) ∧
      (run.status = .cancelling ∨ run.status = .awaitingHuman ∨
        ¬ StillOpen db₀ run children outcome (children.map (·.2)) ∨
        ∀ c ∈ children, asksFirst db₀ c = false)) ∨
    (∀ c ∈ children, (outcome c.2).status ≠ .cancelled) ∧
      (run.status = .cancelling ∨ ∀ c ∈ children, waitsFirst config env run outcome c = false)

theorem orderFree_of {status : Option WorkflowRunStatus}
    (h : ∀ order, Observes (children.map (·.2)) order →
      finalStatus config env passes run.id outcome db₀ order = status) :
    OrderFree config env passes db₀ run children outcome :=
  fun order order' horder horder' => (h order horder).trans (h order' horder').symm

theorem Agreeing.orderFree (hp : Beside db₀ run orchestration children outcome)
    (h : Agreeing config env db₀ run children outcome) :
    OrderFree config env (passes + 1) db₀ run children outcome := by
  cases hopen : reconcilable (db₀.queuePhase? run.id) run.status with
  | false => exact orderFree_of fun order _ => final_closed hp.found hopen order
  | true =>
    have hcancelled : (∀ c ∈ children, (outcome c.2).status = .cancelled) →
        (run.status = .cancelling ∨ run.status = .awaitingHuman ∨
          ¬ StillOpen db₀ run children outcome (children.map (·.2)) ∨
          ∀ c ∈ children, asksFirst db₀ c = false) →
        OrderFree config env (passes + 1) db₀ run children outcome := by
      intro hall hkeeps
      have hsame : run.status.next .awaitingHuman = run.status ∨
          ¬ StillOpen db₀ run children outcome (children.map (·.2)) ∨
          ∀ c ∈ children, asksFirst db₀ c = false := by
        rcases hkeeps with hstatus | hstatus | hkeeps
        · exact Or.inl (by rw [hstatus]; rfl)
        · exact Or.inl (by rw [hstatus]; rfl)
        · exact Or.inr hkeeps
      obtain ⟨status, hfinal⟩ := final_allCancelled hp hopen hall hsame
      exact orderFree_of hfinal
    have h := h.resolve_left (by simp [hopen])
    rcases reconcilable_cases hopen with hawake | hcancelling
    · have hne : run.status ≠ .cancelling := by
        intro hcancelling
        rw [hcancelling] at hawake
        cases hawake
      by_cases hfailed : ∃ c ∈ children, (outcome c.2).status.isFailure = true
      · obtain ⟨c, hc, hfailure⟩ := hfailed
        exact orderFree_of fun order horder => final_failed hp hopen hawake hc hfailure horder
      have hnone : ∀ d ∈ children, (outcome d.2).status.isFailure = false :=
        fun d hd => Bool.eq_false_iff.mpr fun hfailure => hfailed ⟨d, hd, hfailure⟩
      rcases h with ⟨_, hsome⟩ | ⟨c, hc, hwaits⟩ | ⟨hall, hkeeps⟩ | ⟨hnever, hstatus | hwaits⟩
      · exact absurd hsome hfailed
      · exact orderFree_of fun order horder => final_waits hp hopen hawake hnone hc hwaits horder
      · exact hcancelled hall hkeeps
      · exact absurd hstatus hne
      · have hall : ∀ c ∈ children, (outcome c.2).status = .succeeded := by
          intro c hc
          have hends := hp.ends c hc
          have hfailure := hnone c hc
          have hcancelled := hnever c hc
          cases hs : (outcome c.2).status <;>
            simp [hs, AgentRunStatus.isTerminal, AgentRunStatus.isFailure] at hends hfailure hcancelled ⊢
        obtain ⟨status, hfinal⟩ := final_succeeded hp hopen hall hwaits hawake
        exact orderFree_of hfinal
    · rcases h with ⟨hne, _⟩ | hwaits | ⟨hall, hkeeps⟩ | ⟨hnever, _⟩
      · exact absurd hcancelling hne
      · exact orderFree_of fun order horder =>
          final_cancelling hp hopen hcancelling (Or.inr hwaits) horder
      · exact hcancelled hall hkeeps
      · exact orderFree_of fun order horder =>
          final_cancelling hp hopen hcancelling (Or.inl hnever) horder

theorem observes_last {first last : List ℕ} (hperm : (first ++ last).Perm (children.map (·.2)))
    (hlast : ∃ c ∈ children, c.2 ∈ last) : Observes (children.map (·.2)) ([first] ++ [last]) := by
  refine ⟨by simpa using hperm, ?_⟩
  have hend : ([first] ++ [last]).getLast? = some last := by simp
  rw [hend]
  intro hempty
  obtain ⟨c, _, hmem⟩ := hlast
  rw [Option.some.inj hempty] at hmem
  cases hmem

/-- Cancelled agent runs agree only if what one of them asked leaves no trace. -/
theorem OrderFree.keeps (hp : Beside db₀ run orchestration children outcome)
    (hopen : reconcilable (db₀.queuePhase? run.id) run.status = true)
    (hall : ∀ c ∈ children, (outcome c.2).status = .cancelled)
    (h : OrderFree config env passes db₀ run children outcome) :
    run.status = .cancelling ∨ run.status = .awaitingHuman ∨
      ¬ StillOpen db₀ run children outcome (children.map (·.2)) ∨
      ∀ c ∈ children, asksFirst db₀ c = false := by
  by_contra hnot
  simp only [not_or, not_not] at hnot
  obtain ⟨hcancelling, hwaiting, hstill, hasks⟩ := hnot
  obtain ⟨c, hc, hasks⟩ : ∃ c ∈ children, asksFirst db₀ c = true := by
    by_contra hnone
    exact hasks fun c hc => Bool.eq_false_iff.mpr fun htrue => hnone ⟨c, hc, htrue⟩
  have hawake := (reconcilable_cases hopen).resolve_right hcancelling
  have hmem : c.2 ∈ children.map (·.2) := List.mem_map_of_mem hc
  have hnew : ∃ c ∈ children, c.2 ∉ ([] : List ℕ) ∧ c.2 ∈ children.map (·.2) :=
    ⟨c, hc, List.not_mem_nil, hmem⟩
  have hseen : Seen config env db₀ run children outcome [] id db₀ := seen_initial
  have hstands : StandsAt run run.status db₀ := ⟨run, hp.found, rfl, rfl, rfl, rfl⟩
  have hlast : ∀ {f db status}, Seen config env db₀ run children outcome [] f db →
      StandsAt run status db → reconcilable (db₀.queuePhase? run.id) status = true →
      ∃ db', observeBatch config env passes run.id outcome db (children.map (·.2)) = some db' ∧
        StandsAt run status db' := by
    intro f db status hseen hstands hopen
    obtain ⟨db', status', hplay, hstands', hsame, _⟩ :=
      call_lastCancelled hp hall hseen hstands hopen (List.Perm.refl _) hnew
    exact ⟨db', hplay, hsame hstill ▸ hstands'⟩
  -- In the first order all ends are seen at once, in the second one a call comes before them.
  have hfirst : finalStatus config env passes run.id outcome db₀ [children.map (·.2)] =
      some run.status := by
    obtain ⟨db, hplay, hstands'⟩ := hlast hseen hstands hopen
    refine finalStatus_of ?_ hstands'
    rw [List.foldlM_cons, hplay]
    rfl
  have hwaits : (flags config env db₀ run children outcome [] [] id).awaitingHuman = true :=
    (flags_awaitingHuman hp hseen.sighted).mpr ⟨c, hc, Or.inr (Or.inr ⟨List.not_mem_nil, hasks⟩)⟩
  have hunfailed : (flags config env db₀ run children outcome [] [] id).failed = false := by
    apply flags_unfailed hp hseen.sighted
    intro d hd
    rw [hall d hd]
    rfl
  have hsecond : finalStatus config env passes run.id outcome db₀ ([[]] ++ [children.map (·.2)]) =
      some .awaitingHuman := by
    obtain ⟨f, db, hplay, hseen', hstands'⟩ := call_waits hp hseen hstands
      (fun a ha => absurd ha List.not_mem_nil) hopen hunfailed hwaits
    rw [next_awake hawake] at hstands'
    obtain ⟨db', hplay', hend⟩ := hlast hseen' hstands' (reconcilable_of hopen (Or.inl rfl))
    refine finalStatus_of ?_ hend
    rw [List.foldlM_append, List.foldlM_cons, hplay]
    change [children.map (·.2)].foldlM (observeBatch config env passes run.id outcome) db = _
    rw [List.foldlM_cons, hplay']
    rfl
  have hone : Observes (children.map (·.2)) [children.map (·.2)] := by
    refine ⟨by simp, fun hempty => ?_⟩
    rw [List.getLast?_singleton] at hempty
    rw [Option.some.inj hempty] at hmem
    cases hmem
  have htwo : Observes (children.map (·.2)) ([[]] ++ [children.map (·.2)]) :=
    observes_last (by simp) ⟨c, hc, hmem⟩
  exact hwaiting (Option.some.inj (hfirst.symm.trans ((h _ _ hone htwo).trans hsecond)))

theorem exists_split (p : ℕ → Prop) [DecidablePred p] (agents : List ℕ) :
    ∃ X Y : List ℕ, (X ++ Y).Perm agents ∧ (∀ a ∈ X, ¬ p a) ∧ ∀ a ∈ Y, p a := by
  refine ⟨agents.filter fun a => !decide (p a), agents.filter (p ·), ?_, ?_, ?_⟩
  · exact List.perm_append_comm.trans (List.filter_append_perm (p ·) agents)
  · intro a ha
    simpa using (List.mem_filter.mp ha).2
  · intro a ha
    simpa using (List.mem_filter.mp ha).2

theorem OrderFree.agreeing (hp : Beside db₀ run orchestration children outcome)
    (hcancelled : ∃ c ∈ children, (outcome c.2).status = .cancelled)
    (halone : (∀ c ∈ children, (outcome c.2).status = .cancelled) ∨
      ∀ n ∈ db₀.ownExecutions run.id, nodeActive n.status = true → ∃ c ∈ children, c.1 = n)
    (h : OrderFree config env passes db₀ run children outcome) :
    Agreeing config env db₀ run children outcome := by
  by_contra hnot
  rw [Agreeing] at hnot
  simp only [not_or] at hnot
  obtain ⟨hopen, hfailed, hwaits, hkept, _⟩ := hnot
  rw [Bool.not_eq_false] at hopen
  have hall : ¬ ∀ c ∈ children, (outcome c.2).status = .cancelled :=
    fun hall => hkept ⟨hall, h.keeps hp hopen hall⟩
  have halone := halone.resolve_left hall
  have hunfailed : run.status = .cancelling ∨
      ∀ c ∈ children, (outcome c.2).status.isFailure = false := by
    refine or_iff_not_imp_left.mpr fun hne c hc => Bool.eq_false_iff.mpr fun hfailure => ?_
    exact hfailed ⟨hne, c, hc, hfailure⟩
  have hnever : ∀ c ∈ children, waitsAlways config env run outcome c = false :=
    fun c hc => Bool.eq_false_iff.mpr fun halways => hwaits ⟨c, hc, halways⟩
  -- The cancelled agent runs are seen after the others, or before them.
  obtain ⟨X, Y, hperm, hX, hY⟩ :=
    exists_split (fun a => (outcome a).status = .cancelled) (children.map (·.2))
  have hsplit : (Y ++ X).Perm (children.map (·.2)) := List.perm_append_comm.trans hperm
  have hagent : ∀ c ∈ children, c.2 ∈ X ∨ c.2 ∈ Y := fun c hc =>
    List.mem_append.mp (hperm.mem_iff.mpr (List.mem_map_of_mem hc))
  have hneY : ∃ c ∈ children, c.2 ∈ Y := by
    obtain ⟨c, hc, hstatus⟩ := hcancelled
    exact ⟨c, hc, (hagent c hc).resolve_left fun hmem => hX _ hmem hstatus⟩
  have hneX : ∃ c ∈ children, c.2 ∈ X := by
    simp only [not_forall] at hall
    obtain ⟨c, hc, hstatus⟩ := hall
    exact ⟨c, hc, (hagent c hc).resolve_right fun hmem => hstatus (hY _ hmem)⟩
  have hlast : finalStatus config env passes run.id outcome db₀ ([X] ++ [Y]) = some .canceled :=
    final_cancelled_last hp hopen hunfailed hperm (fun c _ => hX c.2) (fun c _ => hY c.2) hneY hnever halone
  have hfirst : finalStatus config env passes run.id outcome db₀ ([Y] ++ [X]) ≠ some .canceled :=
    final_cancelled_first hp hopen hunfailed hperm (fun c _ => hX c.2) (fun c _ => hY c.2) hneX
  exact hfirst ((h _ _ (observes_last hsplit hneX) (observes_last hperm hneY)).trans hlast)

/-- The order in which a run's agent runs are seen to end does not matter if the run is left no
choice, and, once one of them is cancelled, only then, where all are or the run waits for nothing
else. -/
theorem observation_order (hp : Beside db₀ run orchestration children outcome) :
    (Agreeing config env db₀ run children outcome →
      OrderFree config env (passes + 1) db₀ run children outcome) ∧
    ((∃ c ∈ children, (outcome c.2).status = .cancelled) →
      ((∀ c ∈ children, (outcome c.2).status = .cancelled) ∨
        ∀ n ∈ db₀.ownExecutions run.id, nodeActive n.status = true → ∃ c ∈ children, c.1 = n) →
      OrderFree config env (passes + 1) db₀ run children outcome →
        Agreeing config env db₀ run children outcome) :=
  ⟨fun h => h.orderFree hp, fun hcancelled halone h => h.agreeing hp hcancelled halone⟩

end Runs

section Fixture

/-- Two agents beside each other between Start and End. -/
def forkGraph : WorkflowGraph :=
  ⟨2, [⟨"start", .start, none, none⟩, ⟨"a", .agent, none, none⟩, ⟨"b", .agent, none, none⟩,
      ⟨"end", .end, none, none⟩],
    [⟨"e", "start", "a"⟩, ⟨"f", "start", "b"⟩, ⟨"g", "a", "end"⟩, ⟨"h", "b", "end"⟩], none⟩

def forkRun : RunRow := ⟨1, none, 0, forkGraph, "input", .running, none, none, some 1⟩

def forkChildren : List (NodeExecutionRow × ℕ) :=
  [(⟨1, 1, "a", .agent, 0, .running, none, none, none⟩, 10),
    (⟨2, 1, "b", .agent, 0, .running, none, none, none⟩, 11)]

def forkDb : Db := { Db.empty with
  runs := [forkRun]
  nodeExecutions := [⟨0, 1, "start", .start, 0, .succeeded, some "input", none, none⟩] ++
    forkChildren.map Prod.fst ++ [⟨3, 1, "end", .end, 0, .pending, none, none, none⟩]
  orchestration := ⟨[⟨1, none, false⟩], [⟨1, "a", 0, 10⟩, ⟨1, "b", 0, 11⟩],
    [⟨10, .running, none, none⟩, ⟨11, .running, none, none⟩], [], [], []⟩
  nextId := 4 }

/-- The first agent run is cancelled and the second one succeeds. -/
def forkOutcome (a : ℕ) : AgentRunState :=
  if a = 10 then ⟨.cancelled, none, none⟩ else ⟨.succeeded, some "done", none⟩

theorem mem_forkChildren {c : NodeExecutionRow × ℕ} (hc : c ∈ forkChildren) :
    c = (⟨1, 1, "a", .agent, 0, .running, none, none, none⟩, 10) ∨
      c = (⟨2, 1, "b", .agent, 0, .running, none, none, none⟩, 11) := by
  rcases List.mem_cons.mp hc with rfl | hc
  · exact Or.inl rfl
  · exact Or.inr (List.mem_singleton.mp hc)

theorem forkDb_beside {outcome : ℕ → AgentRunState}
    (h : ∀ c ∈ forkChildren, (outcome c.2).status.isTerminal = true) :
    Beside forkDb forkRun 1 forkChildren outcome where
  keys := ⟨by decide, by decide, by decide⟩
  found := rfl
  canonical := rfl
  linked := by decide
  active := by decide
  arenas := by decide
  once := by decide
  agents := by decide
  routes := by
    intro c hc hcondition
    rcases mem_forkChildren hc with rfl | rfl
    · cases hcondition
    · cases hcondition
  stored := by
    intro c hc
    rcases mem_forkChildren hc with rfl | rfl
    · exact ⟨⟨.running, none, none⟩, by decide, rfl⟩
    · exact ⟨⟨.running, none, none⟩, by decide, rfl⟩
  ends := h

/-- The fork with a gate beside the agents, the first of which waits for input. -/
def askingGraph : WorkflowGraph :=
  ⟨2, forkGraph.nodes ++ [⟨"gate", .humanGate, none, none⟩],
    forkGraph.edges ++ [⟨"i", "start", "gate"⟩, ⟨"j", "gate", "end"⟩], none⟩

def askingRun : RunRow := { forkRun with graph := askingGraph }

def askingDb : Db := { forkDb with
  runs := [askingRun]
  nodeExecutions := forkDb.nodeExecutions ++
    [⟨4, 1, "gate", .humanGate, 0, .awaitingHuman, none, none, none⟩]
  orchestration := { forkDb.orchestration with
    agentRuns := [⟨10, .awaitingInput, none, none⟩, ⟨11, .running, none, none⟩] }
  nextId := 5 }

theorem askingDb_beside {outcome : ℕ → AgentRunState}
    (h : ∀ c ∈ forkChildren, (outcome c.2).status.isTerminal = true) :
    Beside askingDb askingRun 1 forkChildren outcome where
  keys := ⟨by decide, by decide, by decide⟩
  found := rfl
  canonical := rfl
  linked := by decide
  active := by decide
  arenas := by decide
  once := by decide
  agents := by decide
  routes := by
    intro c hc hcondition
    rcases mem_forkChildren hc with rfl | rfl
    · cases hcondition
    · cases hcondition
  stored := by
    intro c hc
    rcases mem_forkChildren hc with rfl | rfl
    · exact ⟨⟨.awaitingInput, none, none⟩, by decide, rfl⟩
    · exact ⟨⟨.running, none, none⟩, by decide, rfl⟩
  ends := h

theorem askingDb_stillOpen (outcome : ℕ → AgentRunState) (T : List ℕ) :
    StillOpen askingDb askingRun forkChildren outcome T := by
  refine ⟨⟨4, 1, "gate", .humanGate, 0, .awaitingHuman, none, none, none⟩, by decide, by decide, rfl, ?_⟩
  rfl

/-- Two successes drive the run in either order, also when one of the agents waits for input and a gate
is open. A cancellation and a success do not agree, nor do two cancellations behind which the gate
stays open. -/
theorem observation_order_fork :
    OrderFree Config.plain Surroundings.plain 3 forkDb forkRun forkChildren
        (fun _ => ⟨.succeeded, none, none⟩) ∧
      OrderFree Config.plain Surroundings.plain 3 askingDb askingRun forkChildren
        (fun _ => ⟨.succeeded, none, none⟩) ∧
      ¬ OrderFree Config.plain Surroundings.plain 3 forkDb forkRun forkChildren forkOutcome ∧
      ¬ OrderFree Config.plain Surroundings.plain 3 askingDb askingRun forkChildren
        (fun _ => ⟨.cancelled, none, none⟩) := by
  have hsucceeded : ∀ (db : Db) (run : RunRow), run.status = .running →
      Agreeing Config.plain Surroundings.plain db run forkChildren
        (fun _ => ⟨.succeeded, none, none⟩) := by
    refine fun db run hrun => Or.inr (Or.inr (Or.inr (Or.inr ⟨fun _ _ => by simp, Or.inr fun c hc => ?_⟩)))
    rcases mem_forkChildren hc with rfl | rfl
    · rfl
    · rfl
  have hopen : ¬ reconcilable (forkDb.queuePhase? forkRun.id) forkRun.status = false := by decide
  have hopen' : ¬ reconcilable (askingDb.queuePhase? askingRun.id) askingRun.status = false := by decide
  refine ⟨(observation_order (forkDb_beside fun _ _ => rfl)).1 (hsucceeded forkDb forkRun rfl),
    (observation_order (askingDb_beside fun _ _ => rfl)).1 (hsucceeded askingDb askingRun rfl),
    fun hfree => ?_, fun hfree => ?_⟩
  · have halone : ∀ n ∈ forkDb.ownExecutions forkRun.id, nodeActive n.status = true →
        ∃ c ∈ forkChildren, c.1 = n := by decide
    have hagree := (observation_order (forkDb_beside (by decide))).2 ⟨_, List.mem_cons_self, rfl⟩
      (Or.inr halone) hfree
    obtain ⟨_, hfailed⟩ | hwaits | ⟨hall, _⟩ | ⟨hnever, _⟩ := hagree.resolve_left hopen
    · revert hfailed
      decide
    · revert hwaits
      decide
    · revert hall
      decide
    · revert hnever
      decide
  · have hagree := (observation_order (askingDb_beside fun _ _ => rfl)).2
      ⟨_, List.mem_cons_self, rfl⟩ (Or.inl fun _ _ => rfl) hfree
    obtain ⟨_, hfailed⟩ | hwaits | ⟨_, hkeeps⟩ | ⟨hnever, _⟩ := hagree.resolve_left hopen'
    · revert hfailed
      decide
    · revert hwaits
      decide
    · rcases hkeeps with hstatus | hstatus | hclosed | hnobody
      · cases hstatus
      · cases hstatus
      · exact hclosed (askingDb_stillOpen _ _)
      · revert hnobody
        decide
    · revert hnever
      decide

/-- A cancelled agent run that is seen first does not keep the run from succeeding; seen last it
cancels the run. -/
theorem observation_order_forgets : ∃ (db : Db) (run : RunRow) (orchestration : ℕ)
    (children : List (NodeExecutionRow × ℕ)) (outcome : ℕ → AgentRunState)
    (order order' : List (List ℕ)),
    Beside db run orchestration children outcome ∧ Observes (children.map (·.2)) order ∧
      Observes (children.map (·.2)) order' ∧
      finalStatus Config.plain Surroundings.plain 4 run.id outcome db order = some .succeeded ∧
      finalStatus Config.plain Surroundings.plain 4 run.id outcome db order' = some .canceled := by
  refine ⟨forkDb, forkRun, 1, forkChildren, forkOutcome, [[10], [11]], [[11], [10]],
    forkDb_beside (by decide), ⟨by decide, by decide⟩, ⟨by decide, by decide⟩, ?_, ?_⟩
  · decide +kernel
  · decide +kernel

end Fixture

end VibeKanban.Runtime
