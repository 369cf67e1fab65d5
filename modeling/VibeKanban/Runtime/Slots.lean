import VibeKanban.Runtime.QueueMoves

/-! The project queue: one slot for each project, held by the run that is starting or active, and
granted in the order of the sequence numbers. -/
namespace VibeKanban.Runtime
open Lib Workflow

theorem QueuePhase.Next.keeps {p p' : QueuePhase} (h : p.Next p') :
    p'.holdsSlot = p.holdsSlot ∧ p ≠ .finished ∧
      (p.isUnclaimed = false → p'.isUnclaimed = false) := by
  rcases h with ⟨h, rfl⟩ | ⟨h, rfl⟩ | ⟨h, h'⟩
  · cases p <;> simp_all [QueuePhase.isUnclaimed, QueuePhase.holdsSlot]
  · cases p <;> simp_all [QueuePhase.isWaiting, QueuePhase.isUnclaimed, QueuePhase.holdsSlot]
  · cases p <;> cases p' <;> simp_all [QueuePhase.isUnclaimed, QueuePhase.holdsSlot]

/-- How an entry changes: it keeps its place in the queue and a finished one stays finished. -/
structure QueueRow.Stays (q q' : QueueRow) : Prop where
  runId : q.runId = q'.runId
  finished : q.phase = .finished → q'.phase = .finished

theorem QueueRow.Stays.refl (q : QueueRow) : q.Stays q := ⟨rfl, fun h => h⟩

theorem QueueRow.Stays.trans (a b c : QueueRow) (h : a.Stays b) (h' : b.Stays c) : a.Stays c :=
  ⟨h.runId.trans h'.runId, fun hf => h'.finished (h.finished hf)⟩

/-- The run that was granted a slot in an event. -/
def grantedRun : Sigma Stmt.Ans → Option ℕ
  | ⟨.claimNext, answer⟩ => answer
  | _ => none

namespace Db

/-- The keys of the queue, the slots and the entries that hold them. -/
structure SlotInv (db : Db) : Prop where
  runIds : (db.queue.map (·.runId)).Nodup
  sequences : (db.queue.map (·.sequence)).Nodup
  next : ∀ q ∈ db.queue, q.sequence < db.nextSequence
  projects : (db.slots.map (·.projectId)).Nodup
  holds : ∀ q ∈ db.queue, ⟨q.projectId, q.runId⟩ ∈ db.slots ↔ q.phase.holdsSlot = true
  entries : ∀ s ∈ db.slots, ∃ q ∈ db.queue, q.runId = s.runId ∧ q.projectId = s.projectId

/-- What was granted so far, newest first: everything ahead of a granted entry is finished, so the
grants of a project follow the sequence. -/
structure Granted (granted : List ℕ) (db : Db) : Prop where
  passed : ∀ id ∈ granted, ∃ g ∈ db.queue, g.runId = id ∧ g.phase.isUnclaimed = false ∧
    ∀ e ∈ db.queue, e.projectId = g.projectId → e.sequence < g.sequence → e.phase = .finished
  order : granted.Pairwise fun later earlier => ∃ q ∈ db.queue, ∃ q' ∈ db.queue, q.runId = later ∧
    q'.runId = earlier ∧ (q.projectId = q'.projectId → q'.sequence < q.sequence)

/-- The queue changes entry by entry, each staying where it is. -/
structure Rephased (f : QueueRow → QueueRow) (db db' : Db) : Prop where
  queue : db'.queue = db.queue.map f
  nextSequence : db'.nextSequence = db.nextSequence
  sequence : ∀ q, (f q).sequence = q.sequence
  runId : ∀ q, (f q).runId = q.runId
  projectId : ∀ q, (f q).projectId = q.projectId
  finished : ∀ q ∈ db.queue, q.phase = .finished → (f q).phase = .finished
  claimed : ∀ q ∈ db.queue, q.phase.isUnclaimed = false → (f q).phase.isUnclaimed = false

variable {db db' : Db} {f : QueueRow → QueueRow}

theorem Rephased.evolves (h : Rephased f db db') : Evolves QueueRow.Stays db.queue db'.queue := by
  intro i q hq
  refine ⟨f q, by rw [h.queue, List.getElem?_map, hq]; rfl, (h.runId q).symm, ?_⟩
  exact h.finished q (List.mem_of_getElem? hq)

theorem Rephased.mem (h : Rephased f db db') {q : QueueRow} (hq : q ∈ db.queue) :
    f q ∈ db'.queue := by
  rw [h.queue]
  exact List.mem_map_of_mem hq

theorem Rephased.granted (h : Rephased f db db') {granted : List ℕ} (hg : db.Granted granted) :
    db'.Granted granted := by
  constructor
  · intro id hid
    obtain ⟨g, hgmem, hrun, hclaimed, hahead⟩ := hg.passed id hid
    refine ⟨f g, h.mem hgmem, (h.runId g).trans hrun, h.claimed g hgmem hclaimed, ?_⟩
    intro e he hproject hseq
    rw [h.queue] at he
    obtain ⟨x, hx, rfl⟩ := List.mem_map.mp he
    rw [h.projectId, h.projectId] at hproject
    rw [h.sequence, h.sequence] at hseq
    exact h.finished x hx (hahead x hx hproject hseq)
  · refine hg.order.imp ?_
    rintro later earlier ⟨q, hq, q', hq', hlater, hearlier, hseq⟩
    refine ⟨f q, h.mem hq, f q', h.mem hq', (h.runId q).trans hlater, (h.runId q').trans hearlier, ?_⟩
    rw [h.projectId, h.projectId, h.sequence, h.sequence]
    exact hseq

theorem Rephased.slotInv (h : Rephased f db db') (hinv : db.SlotInv)
    (hprojects : (db'.slots.map (·.projectId)).Nodup)
    (hholds : ∀ q ∈ db.queue, ⟨q.projectId, q.runId⟩ ∈ db'.slots ↔ (f q).phase.holdsSlot = true)
    (hentries : ∀ s ∈ db'.slots, ∃ q ∈ db.queue, q.runId = s.runId ∧ q.projectId = s.projectId) :
    db'.SlotInv := by
  refine ⟨?_, ?_, ?_, hprojects, ?_, ?_⟩
  · have hmap : db'.queue.map (·.runId) = db.queue.map (·.runId) := by
      rw [h.queue, List.map_map]
      exact List.map_congr_left fun q _ => h.runId q
    rw [hmap]
    exact hinv.runIds
  · have hmap : db'.queue.map (·.sequence) = db.queue.map (·.sequence) := by
      rw [h.queue, List.map_map]
      exact List.map_congr_left fun q _ => h.sequence q
    rw [hmap]
    exact hinv.sequences
  · rw [h.queue, h.nextSequence]
    intro q hq
    obtain ⟨x, hx, rfl⟩ := List.mem_map.mp hq
    rw [h.sequence]
    exact hinv.next x hx
  · rw [h.queue]
    intro q hq
    obtain ⟨x, hx, rfl⟩ := List.mem_map.mp hq
    rw [h.projectId, h.runId]
    exact hholds x hx
  · intro s hs
    obtain ⟨q, hq, hrun, hproject⟩ := hentries s hs
    exact ⟨f q, h.mem hq, (h.runId q).trans hrun, (h.projectId q).trans hproject⟩

theorem rephased_update {p : QueueRow → Bool} {next : QueuePhase}
    (hqueue : db'.queue = updateWhere p (fun q => { q with phase := next }) db.queue)
    (hsequence : db'.nextSequence = db.nextSequence)
    (hfinished : ∀ q ∈ db.queue, p q = true → q.phase = .finished → next = .finished)
    (hclaimed : ∀ q ∈ db.queue, p q = true → q.phase.isUnclaimed = false →
      next.isUnclaimed = false) :
    Rephased (fun q => if p q then { q with phase := next } else q) db db' := by
  refine ⟨hqueue, hsequence, fun q => ?_, fun q => ?_, fun q => ?_, fun q hq h => ?_, fun q hq h => ?_⟩
  · split_ifs <;> rfl
  · split_ifs <;> rfl
  · split_ifs <;> rfl
  · split_ifs with hp
    · exact hfinished q hq hp h
    · exact h
  · split_ifs with hp
    · exact hclaimed q hq hp h
    · exact h

/-- The queue invariant together with the order of the grants. -/
structure QueueInv (granted : List ℕ) (db : Db) : Prop extends db.SlotInv, db.Granted granted

theorem queueInv_setQueue {granted : List ℕ} (h : db.QueueInv granted) {p : QueueRow → Bool}
    {next : QueuePhase} (hnext : ∀ q ∈ db.queue, p q = true → q.phase.Next next) :
    (db.setQueue p next).QueueInv granted ∧
      Evolves QueueRow.Stays db.queue (db.setQueue p next).queue := by
  have hmoved : Rephased (fun q => if p q then { q with phase := next } else q) db
      (db.setQueue p next) := rephased_update rfl rfl
    (fun q hq hp hf => absurd hf (hnext q hq hp).keeps.2.1)
    (fun q hq hp => (hnext q hq hp).keeps.2.2)
  refine ⟨⟨hmoved.slotInv h.toSlotInv h.projects (fun q hq => ?_) h.entries,
    hmoved.granted h.toGranted⟩, hmoved.evolves⟩
  refine (h.holds q hq).trans ?_
  split_ifs with hp
  · rw [← (hnext q hq hp).keeps.1]
  · rfl

theorem queueInv_apart {granted : List ℕ} (h : db.QueueInv granted) (hmove : db.QueueApart db') :
    db'.QueueInv granted := by
  refine ⟨⟨?_, ?_, ?_, ?_, ?_, ?_⟩, ⟨?_, ?_⟩⟩
  · exact hmove.queue ▸ h.runIds
  · exact hmove.queue ▸ h.sequences
  · rw [hmove.queue, hmove.nextSequence]
    exact h.next
  · exact hmove.slots ▸ h.projects
  · rw [hmove.queue, hmove.slots]
    exact h.holds
  · rw [hmove.queue, hmove.slots]
    exact h.entries
  · rw [hmove.queue]
    exact h.passed
  · rw [hmove.queue]
    exact h.order

theorem queueInv_accepts {granted : List ℕ} (h : db.QueueInv granted) {runId projectId : ℕ}
    {phase : QueuePhase} (hmove : db.Accepts db' runId projectId phase) :
    db'.QueueInv granted := by
  have hnew : ∀ q ∈ db.queue, q.runId ≠ runId := by
    simpa [queue?] using hmove.entry
  have hold : ∀ q ∈ db.queue, q ∈ db'.queue := fun q hq => by
    rw [hmove.queue]
    exact List.mem_append_left _ hq
  have hmem : ∀ q ∈ db'.queue, q ∈ db.queue ∨ q = ⟨db.nextSequence, runId, projectId, phase⟩ := by
    rw [hmove.queue]
    intro q hq
    simpa using hq
  refine ⟨⟨?_, ?_, ?_, ?_, ?_, ?_⟩, ⟨?_, ?_⟩⟩
  · rw [hmove.queue, List.map_append, List.nodup_append']
    exact ⟨h.runIds, by simp, by simpa using hnew⟩
  · rw [hmove.queue, List.map_append, List.nodup_append']
    refine ⟨h.sequences, by simp, ?_⟩
    simpa using fun q hq => (h.next q hq).ne
  · intro q hq
    rw [hmove.nextSequence]
    rcases hmem q hq with hq | rfl
    · exact (h.next q hq).trans (Nat.lt_succ_self _)
    · exact Nat.lt_succ_self _
  · exact hmove.slots ▸ h.projects
  · intro q hq
    rw [hmove.slots]
    rcases hmem q hq with hq | rfl
    · exact h.holds q hq
    · constructor
      · intro hslot
        obtain ⟨x, hx, hrun, _⟩ := h.entries _ hslot
        exact absurd hrun (hnew x hx)
      · intro hholds
        have hunclaimed := hmove.unclaimed
        cases phase <;> simp_all [QueuePhase.isUnclaimed, QueuePhase.holdsSlot]
  · intro s hs
    obtain ⟨q, hq, hentry⟩ := h.entries s (hmove.slots ▸ hs)
    exact ⟨q, hold q hq, hentry⟩
  · intro id hid
    obtain ⟨g, hg, hrun, hclaimed, hahead⟩ := h.passed id hid
    refine ⟨g, hold g hg, hrun, hclaimed, fun e he hproject hseq => ?_⟩
    rcases hmem e he with he | rfl
    · exact hahead e he hproject hseq
    · exact absurd (h.next g hg) (by simpa using hseq.le)
  · refine h.order.imp ?_
    rintro later earlier ⟨q, hq, q', hq', hrest⟩
    exact ⟨q, hold q hq, q', hold q' hq', hrest⟩

theorem queueInv_moves {granted : List ℕ} (h : db.QueueInv granted) (hmoves : db.QueueMoves db') :
    db'.QueueInv granted ∧ Evolves QueueRow.Stays db.queue db'.queue := by
  induction hmoves with
  | refl => exact ⟨h, Evolves.refl QueueRow.Stays.refl _⟩
  | tail _ hmove ih =>
    obtain ⟨hinv, hstays⟩ := ih
    cases hmove with
    | apart hapart =>
      refine ⟨queueInv_apart hinv hapart, ?_⟩
      rw [hapart.queue]
      exact hstays
    | phase hphase =>
      obtain ⟨hinv', hstays'⟩ := queueInv_setQueue hinv hphase
      exact ⟨hinv', hstays.trans QueueRow.Stays.trans hstays'⟩
    | accept haccept =>
      refine ⟨queueInv_accepts hinv haccept, hstays.trans QueueRow.Stays.trans ?_⟩
      rw [haccept.queue]
      exact evolves_append QueueRow.Stays.refl _ _

theorem oldest_mem {l : List QueueRow} {q : QueueRow} (h : oldest l = some q) : q ∈ l := by
  induction l generalizing q with
  | nil => cases h
  | cons x rest ih =>
    rw [oldest] at h
    split at h
    · rw [← Option.some.inj h]
      exact List.mem_cons_self
    · rename_i m hm
      split_ifs at h
      · rw [← Option.some.inj h]
        exact List.mem_cons_of_mem _ (ih hm)
      · rw [← Option.some.inj h]
        exact List.mem_cons_self

/-- What a claim saw: a queued entry of a project without a slot, with only finished entries ahead
of it. -/
theorem claimNext_cases (db : Db) : db.claimNext = (none, db) ∨ ∃ q ∈ db.queue,
    q.phase = .queued ∧ (∀ s ∈ db.slots, s.projectId ≠ q.projectId) ∧
    (∀ e ∈ db.queue, e.projectId = q.projectId → e.sequence < q.sequence → e.phase = .finished) ∧
    db.claimNext = (some q.runId, ({ db with slots := db.slots ++ [⟨q.projectId, q.runId⟩] } :
      Db).setQueue (fun e => e.runId == q.runId && decide (e.phase = .queued)) .starting) := by
  cases hq : oldest (db.queue.filter db.claimable) with
  | none => exact Or.inl (by rw [claimNext, hq])
  | some q =>
    obtain ⟨hmem, hclaim⟩ := List.mem_filter.mp (oldest_mem hq)
    simp only [claimable, blocked, Bool.and_eq_true, decide_eq_true_eq, Bool.not_eq_true',
      Bool.or_eq_false_iff] at hclaim
    refine Or.inr ⟨q, hmem, hclaim.1.1, ?_, ?_, by rw [claimNext, hq]⟩
    · simpa using hclaim.2.1.1
    · intro e he hproject hseq
      have hahead := hclaim.2.1.2
      simp only [List.any_eq_false, Bool.and_eq_true, beq_iff_eq, decide_eq_true_eq, not_and,
        not_not] at hahead
      exact hahead e he ⟨hproject, hseq⟩

/-- The grant goes to an entry behind every granted one of its project. -/
theorem queueInv_claimNext {granted : List ℕ} (h : db.QueueInv granted) :
    db.claimNext.2.QueueInv (db.claimNext.1.toList ++ granted) ∧
      Evolves QueueRow.Stays db.queue db.claimNext.2.queue := by
  rcases claimNext_cases db with heq | ⟨q, hq, hqueued, hfree, hahead, heq⟩
  · rw [heq]
    exact ⟨h, Evolves.refl QueueRow.Stays.refl _⟩
  · rw [heq]
    have hsame : ∀ x ∈ db.queue, x.runId = q.runId → x = q := fun x hx hid =>
      List.inj_on_of_nodup_map h.runIds hx hq hid
    have hmoved : Rephased (fun e => if e.runId == q.runId && decide (e.phase = .queued) then
        { e with phase := .starting } else e) db
        (({ db with slots := db.slots ++ [⟨q.projectId, q.runId⟩] } : Db).setQueue
          (fun e => e.runId == q.runId && decide (e.phase = .queued)) .starting) := by
      refine rephased_update rfl rfl (fun e _ hp hf => ?_) (fun _ _ _ _ => rfl)
      simp [hf] at hp
    have hgranted := hmoved.granted h.toGranted
    refine ⟨⟨hmoved.slotInv h.toSlotInv ?_ (fun x hx => ?_) (fun s hs => ?_), ?_, ?_⟩,
      hmoved.evolves⟩
    · change ((db.slots ++ [SlotRow.mk q.projectId q.runId]).map (·.projectId)).Nodup
      rw [List.map_append, List.nodup_append']
      exact ⟨h.projects, by simp, by simpa using hfree⟩
    · change (⟨x.projectId, x.runId⟩ : SlotRow) ∈ db.slots ++ [⟨q.projectId, q.runId⟩] ↔ _
      by_cases hid : x.runId = q.runId
      · obtain rfl := hsame x hx hid
        simp [hqueued, QueuePhase.holdsSlot]
      · simpa [hid] using h.holds x hx
    · rcases List.mem_append.mp hs with hs | hs
      · exact h.entries s hs
      · rw [List.mem_singleton.mp hs]
        exact ⟨q, hq, rfl, rfl⟩
    · intro id hid
      rcases List.mem_cons.mp hid with rfl | hid
      · refine ⟨_, hmoved.mem hq, by simp [hqueued], by simp [hqueued, QueuePhase.isUnclaimed], ?_⟩
        intro e he hproject hseq
        rw [hmoved.queue] at he
        obtain ⟨x, hx, rfl⟩ := List.mem_map.mp he
        rw [hmoved.projectId, hmoved.projectId] at hproject
        rw [hmoved.sequence, hmoved.sequence] at hseq
        exact hmoved.finished x hx (hahead x hx hproject hseq)
      · exact hgranted.passed id hid
    · refine List.pairwise_cons.mpr ⟨fun id hid => ?_, hgranted.order⟩
      obtain ⟨g, hg, hrun, hclaimed, hbehind⟩ := h.passed id hid
      refine ⟨_, hmoved.mem hq, _, hmoved.mem hg, hmoved.runId q, (hmoved.runId g).trans hrun, ?_⟩
      rw [hmoved.projectId, hmoved.projectId, hmoved.sequence, hmoved.sequence]
      intro hproject
      rcases Nat.lt_trichotomy g.sequence q.sequence with hlt | heq | hgt
      · exact hlt
      · obtain rfl := List.inj_on_of_nodup_map h.sequences hg hq heq
        simp [hqueued, QueuePhase.isUnclaimed] at hclaimed
      · simp [hbehind q hq hproject hgt] at hqueued

theorem queueInv_releaseTerminal {granted : List ℕ} (h : db.QueueInv granted) (runId : ℕ) :
    (db.releaseTerminal runId).2.QueueInv granted ∧
      Evolves QueueRow.Stays db.queue (db.releaseTerminal runId).2.queue := by
  rw [releaseTerminal]
  split_ifs
  · have hmoved : Rephased (fun q => if q.runId == runId then { q with phase := .finished } else q)
        db (({ db with slots := db.slots.filter fun s => s.runId != runId } : Db).setQueue
          (fun q => q.runId == runId) .finished) :=
      rephased_update rfl rfl (fun _ _ _ _ => rfl) (fun _ _ _ _ => rfl)
    refine ⟨⟨hmoved.slotInv h.toSlotInv ?_ (fun x hx => ?_) (fun s hs => ?_),
      hmoved.granted h.toGranted⟩, hmoved.evolves⟩
    · exact (List.filter_sublist.map _).nodup h.projects
    · change (⟨x.projectId, x.runId⟩ : SlotRow) ∈ db.slots.filter _ ↔ _
      by_cases hid : x.runId = runId
      · simp [hid, QueuePhase.holdsSlot]
      · simpa [hid] using h.holds x hx
    · exact h.entries s (List.mem_filter.mp hs).1
  · exact ⟨h, Evolves.refl QueueRow.Stays.refl _⟩

theorem queueInv_setQueueActive {granted : List ℕ} (h : db.QueueInv granted) {runId : ℕ}
    (hslot : ∃ s ∈ db.slots, s.runId = runId) :
    (db.setQueueActive runId).QueueInv granted ∧
      Evolves QueueRow.Stays db.queue (db.setQueueActive runId).queue := by
  refine queueInv_setQueue h fun q hq hp => Or.inr (Or.inr ⟨?_, rfl⟩)
  obtain ⟨s, hs, rfl⟩ := hslot
  obtain ⟨x, hx, hrun, hproject⟩ := h.entries s hs
  have hid : q.runId = s.runId := by simpa using hp
  obtain rfl := List.inj_on_of_nodup_map h.runIds hq hx (hid.trans hrun.symm)
  refine (h.holds q hq).mp ?_
  rw [hproject, hrun]
  exact hs

end Db

/-- The start of an accepted run marks its entry active only while the run still holds its slot. -/
def startHoldsSlot : Stmt → Db → Bool
  | .setQueueActive runId, db => db.slots.any fun s => s.runId == runId
  | _, _ => true

theorem Stmt.Exec.queueInv {fromStr : String → Option Json} {s : Stmt} {db db' : Db} {a : s.Ans}
    {tr : List (Sigma Stmt.Ans)} (h : s.Exec fromStr db a db') (hguard : startHoldsSlot s db = true)
    (hinv : db.QueueInv (tr.filterMap grantedRun)) :
    db'.QueueInv ((⟨s, a⟩ :: tr : List (Sigma Stmt.Ans)).filterMap grantedRun) ∧
      Evolves QueueRow.Stays db.queue db'.queue := by
  cases s with
  | claimNext =>
    have hclaim : db.claimNext = (a, db') := Option.some.inj h
    have hstep := Db.queueInv_claimNext hinv
    rw [hclaim] at hstep
    cases a with
    | none => exact hstep
    | some id => exact hstep
  | releaseTerminal runId => exact run_snd h ▸ Db.queueInv_releaseTerminal hinv runId
  | setQueueActive runId =>
    exact run_snd h ▸ Db.queueInv_setQueueActive hinv (by simpa [startHoldsSlot] using hguard)
  | _ => exact Db.queueInv_moves hinv (h.queueMoves rfl)

/-- From a database without queue entries and slots, in every state reached while no start marks
the entry of a run that has lost its slot: each project has at most one slot, a run holds its
project's slot exactly when it is starting or active, the grants of a project follow the sequence
numbers, and a finished entry stays finished. -/
theorem project_queue_invariant {config : Config} {db : Db} {w w' : System}
    (hqueue : db.queue = []) (hslots : db.slots = [])
    (hbefore : Interleaves config startHoldsSlot (.start db) w)
    (hafter : Interleaves config startHoldsSlot w w') :
    (w.state.slots.map (·.projectId)).Nodup ∧
    (∀ q ∈ w.state.queue, ⟨q.projectId, q.runId⟩ ∈ w.state.slots ↔ q.phase.holdsSlot = true) ∧
    (∀ s ∈ w.state.slots, ∃ q ∈ w.state.queue, q.runId = s.runId ∧ q.projectId = s.projectId) ∧
    ((w.trace.filterMap grantedRun).Pairwise fun later earlier => ∃ q ∈ w.state.queue,
      ∃ q' ∈ w.state.queue, q.runId = later ∧ q'.runId = earlier ∧
        (q.projectId = q'.projectId → q'.sequence < q.sequence)) ∧
    ∀ runId, w.state.queuePhase? runId = some .finished →
      w'.state.queuePhase? runId = some .finished := by
  have henv : ∀ granted (x y : Db), x.QueueInv granted → OrchestrationMoves x y →
      y.QueueInv granted := by
    rintro granted x _ hinv ⟨o, rfl⟩
    exact Db.queueInv_apart hinv (Db.queueApart_of_tables rfl rfl rfl rfl rfl)
  have hinv : w.state.QueueInv (w.trace.filterMap grantedRun) := by
    refine Steps.inv (I := fun tr db => db.QueueInv (tr.filterMap grantedRun))
      (fun _ _ _ _ _ hI hg hs => (hs.queueInv hg hI).1) (fun _ _ _ => henv _ _ _) hbefore ?_
    refine ⟨⟨?_, ?_, ?_, ?_, ?_, ?_⟩, ⟨?_, ?_⟩⟩ <;> simp [World.start, hqueue, hslots]
  have hstays : w'.state.QueueInv (w'.trace.filterMap grantedRun) ∧
      Evolves QueueRow.Stays w.state.queue w'.state.queue := by
    refine Steps.inv (I := fun tr db => db.QueueInv (tr.filterMap grantedRun) ∧
      Evolves QueueRow.Stays w.state.queue db.queue) ?_ ?_ hafter
      ⟨hinv, Evolves.refl QueueRow.Stays.refl _⟩
    · rintro tr x s a y ⟨hI, hE⟩ hg hs
      obtain ⟨hI', hE'⟩ := hs.queueInv hg hI
      exact ⟨hI', hE.trans QueueRow.Stays.trans hE'⟩
    · rintro tr x y ⟨hI, hE⟩ ⟨o, rfl⟩
      exact ⟨henv _ _ _ hI ⟨o, rfl⟩, hE⟩
  refine ⟨hinv.projects, hinv.holds, hinv.entries, hinv.order, fun runId hphase => ?_⟩
  obtain ⟨q, hq, hfinished⟩ := Option.map_eq_some_iff.mp hphase
  obtain ⟨q', hq', hstay⟩ := hstays.2.find_key QueueRow.runId (fun _ _ h => h.runId) hq
  rw [Db.queuePhase?, Db.queue?, hq', Option.map_some, hstay.finished hfinished]

section Fixture

/-- A run is accepted, claimed by the dispatcher, stopped by a user and started by its task. -/
def raceOperations : List (Program Unit) :=
  [acceptWorkflowRun 1 (some 9) 0 straightGraph "input", tick Config.plain 2,
    stopWorkflow "ui" 9 1 "stop", startingTask Config.plain 1 1 false]

theorem raceOperations_operation : ∀ p ∈ raceOperations, Operation Config.plain p := by
  intro p hp
  simp only [raceOperations, List.mem_cons, List.not_mem_nil, or_false] at hp
  rcases hp with rfl | rfl | rfl | rfl
  · exact Operation.accept 1 (some 9) 0 straightGraph "input"
  · exact Operation.tick 2
  · exact Operation.stop "ui" 9 1 "stop"
  · exact Operation.startingTask 1 1 false

def twoAttemptsDb : Db := { Db.empty with
  attempts := [⟨9, 3, straightGraph, none⟩, ⟨10, 3, straightGraph, none⟩] }

/-- Two runs of a project are accepted, and each is claimed by a pass of the dispatcher and started. -/
def queuedOperations : List (Program Unit) :=
  [acceptWorkflowRun 1 (some 9) 0 straightGraph "input",
    acceptWorkflowRun 2 (some 10) 0 straightGraph "input", tick Config.plain 2,
    startingTask Config.plain 4 1 false, tick Config.plain 2, startingTask Config.plain 4 2 false]

theorem queuedOperations_operation : ∀ p ∈ queuedOperations, Operation Config.plain p := by
  intro p hp
  simp only [queuedOperations, List.mem_cons, List.not_mem_nil, or_false] at hp
  rcases hp with rfl | rfl | rfl | rfl | rfl | rfl
  · exact Operation.accept 1 (some 9) 0 straightGraph "input"
  · exact Operation.accept 2 (some 10) 0 straightGraph "input"
  · exact Operation.tick 2
  · exact Operation.startingTask 4 1 false
  · exact Operation.tick 2
  · exact Operation.startingTask 4 2 false

/-- The first run is granted the slot and finishes, the second pass grants it to the second run, which
then becomes active; the first one stays finished. -/
theorem project_queue_invariant_twoRuns : ∃ w w' : System,
    Interleaves Config.plain startHoldsSlot (.start twoAttemptsDb) w ∧
      Interleaves Config.plain startHoldsSlot w w' ∧
      w.state.queue = [⟨0, 1, 0, .finished⟩, ⟨1, 2, 0, .starting⟩] ∧
      w.trace.filterMap grantedRun = [2, 1] ∧ (w.state.slots.map (·.projectId)).Nodup ∧
      ⟨0, 2⟩ ∈ w.state.slots ∧ ⟨0, 1⟩ ∉ w.state.slots ∧
      w'.state.queuePhase? 2 = some .active ∧ w'.state.queuePhase? 1 = some .finished := by
  have hstart := start_interleaves startHoldsSlot twoAttemptsDb queuedOperations_operation
  obtain ⟨w, hw, hqueue, hgrants, w', hw', hactive⟩ : ∃ w : System,
      follow (Stmt.accept Config.plain startHoldsSlot)
        (List.replicate 3 0 ++ List.replicate 3 1 ++ List.replicate 6 2 ++ List.replicate 34 3 ++
          List.replicate 16 4) ⟨[], twoAttemptsDb, queuedOperations⟩ = some w ∧
      w.state.queue = [⟨0, 1, 0, .finished⟩, ⟨1, 2, 0, .starting⟩] ∧
      w.trace.filterMap grantedRun = [2, 1] ∧
      ∃ w' : System, follow (Stmt.accept Config.plain startHoldsSlot) (List.replicate 34 5) w =
        some w' ∧ w'.state.queuePhase? 2 = some .active :=
    ⟨_, rfl, rfl, rfl, _, rfl, rfl⟩
  have hbefore := hstart.trans (follow_interleaves hw)
  have hafter : Interleaves Config.plain startHoldsSlot w w' := follow_interleaves hw'
  obtain ⟨hprojects, hholds, -, -, hstays⟩ := project_queue_invariant rfl rfl hbefore hafter
  have hfinished : w.state.queuePhase? 1 = some .finished := by
    unfold Db.queuePhase? Db.queue?
    rw [hqueue]
    rfl
  refine ⟨w, w', hbefore, hafter, hqueue, hgrants, hprojects, ?_, ?_, hactive, hstays 1 hfinished⟩
  · exact (hholds ⟨1, 2, 0, .starting⟩ (by simp [hqueue])).mpr rfl
  · intro hmem
    have hfirst := (hholds ⟨0, 1, 0, .finished⟩ (by simp [hqueue])).mp hmem
    cases hfirst

/-- A stop that looked at the run between its claim and its start cancels it and gives the slot
back; the start then marks the finished entry active. -/
theorem start_revives_finished_entry : ∃ w w' : System,
    Interleaves Config.plain unguarded (.start instanceDb) w ∧ Interleaves Config.plain unguarded w w' ∧
      w.state.queuePhase? 1 = some .finished ∧ w'.state.queuePhase? 1 = some .active ∧
      w'.state.slots = [] := by
  have hstart := start_interleaves unguarded instanceDb raceOperations_operation
  obtain ⟨w, hw, hfinished, w', hw', hactive, hslots⟩ : ∃ w : System,
      follow (Stmt.accept Config.plain unguarded)
        ([0, 0, 0, 1, 1, 1, 1, 2, 2, 2, 1, 3, 3, 3, 3, 3] ++ List.replicate 17 2)
        ⟨[], instanceDb, raceOperations⟩ = some w ∧ w.state.queuePhase? 1 = some .finished ∧
      ∃ w' : System, follow (Stmt.accept Config.plain unguarded) [3] w = some w' ∧
        w'.state.queuePhase? 1 = some .active ∧ w'.state.slots = [] :=
    ⟨_, rfl, rfl, _, rfl, rfl, rfl⟩
  exact ⟨w, w', hstart.trans (follow_interleaves hw), follow_interleaves hw', hfinished, hactive,
    hslots⟩

end Fixture

end VibeKanban.Runtime
