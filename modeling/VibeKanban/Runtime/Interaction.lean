import VibeKanban.Runtime.Frames

/-! Every interaction is answered at most once, and a human answer is recorded together with the
transitions of its execution and its run. -/
namespace VibeKanban.Runtime
open Lib Workflow

/-- The statuses an answer gives to its execution and its run when it is recorded. The winner of
an Arena is applied to the workspace first. -/
def InteractionResponse.transition :
    InteractionResponse → Option (NodeExecutionStatus × WorkflowRunStatus)
  | approve _ | branch _ _ => some (.succeeded, .running)
  | reject _ => some (.failed, .failed)
  | arenaWinner _ => none

/-- The execution whose claim succeeded in an event. -/
def claimedExecution : Sigma Stmt.Ans → Option ℕ
  | ⟨.claimInteraction .., answer⟩ => answer.map Prod.fst
  | _ => none

namespace Db
variable {db db' : Db}

/-- One answer for each execution, and every answer with a transition has been applied. -/
structure Answered (db : Db) : Prop where
  once : (db.responses.map (·.nodeExecutionId)).Nodup
  applied : ∀ r ∈ db.responses, ∀ next, r.response.transition = some next →
    db.nodeStatus? r.nodeExecutionId = some next.1

/-- What a claim does: the loser changes nothing, the winner records its answer and makes its
transition, if the answer has one. -/
def Claims (db db' : Db) (runId : ℕ) (awaited : Awaited) (response : InteractionResponse) :
    Option (ℕ × ℤ) → Prop
  | none => db' = db
  | some (executionId, _) =>
    db.nodeStatus? executionId = some awaited.status ∧
    (∀ r ∈ db.responses, r.nodeExecutionId ≠ executionId) ∧
    db'.responses = db.responses ++ [⟨executionId, response⟩] ∧
    match response.transition with
    | some next => db'.nodeStatus? executionId = some next.1 ∧ db'.runStatus? runId = some next.2
    | none => db'.nodeExecutions = db.nodeExecutions ∧ db'.runs = db.runs

theorem nodeStatus_of_mem (hk : db.Keyed) {n : NodeExecutionRow} (hn : n ∈ db.nodeExecutions) :
    db.nodeStatus? n.id = some n.status := by
  have hfind : db.nodeExecutions.find? (fun m => m.id = n.id) = some n := by
    refine find_unique hn (by simp) fun m hm hid => ?_
    exact List.inj_on_of_nodup_map hk.ids hm hn (by simpa using hid)
  rw [nodeStatus?, hfind]
  rfl

theorem setNode_nodeStatus (hk : db.Keyed) {n : NodeExecutionRow} (hn : n ∈ db.nodeExecutions)
    (status : NodeExecutionStatus) (outputText errorText : Option String) :
    (db.setNode n.id status outputText errorText).nodeStatus? n.id = some status := by
  obtain ⟨m, hm, _⟩ := Option.map_eq_some_iff.mp (nodeStatus_of_mem hk hn)
  have hid : m.id = n.id := by simpa using List.find?_some hm
  have hfind := find_updateWhere NodeExecutionRow.id (p := fun m => m.id == n.id)
    (f := fun m => { m with status := status, outputText := outputText, errorText := errorText })
    (fun _ => rfl) db.nodeExecutions n.id
  rw [nodeStatus?, setNode, setNodes, hfind, hm]
  simp [hid]

theorem setRun_runStatus {r : RunRow} (hr : r ∈ db.runs) (status : WorkflowRunStatus)
    (errorText : Option String) :
    (db.setRun r.id status errorText).runStatus? r.id = some status := by
  obtain ⟨x, hx⟩ : ∃ x, db.runs.find? (fun x => x.id = r.id) = some x :=
    Option.isSome_iff_exists.mp (List.find?_isSome.mpr ⟨r, hr, by simp⟩)
  have hid : x.id = r.id := by simpa using List.find?_some hx
  have hfind := find_updateWhere RunRow.id (p := fun x => x.id == r.id)
    (f := fun x => { x with status := status, errorText := errorText }) (fun _ => rfl) db.runs r.id
  rw [runStatus?, run?, setRun, setRuns, hfind, hx]
  simp [hid]

/-- The transition of an answer is made as a whole. -/
theorem applyResponse_transition (hk : db.Keyed) {n : NodeExecutionRow} {r : RunRow}
    (hn : n ∈ db.nodeExecutions) (hr : r ∈ db.runs) {response : InteractionResponse}
    {next : NodeExecutionStatus × WorkflowRunStatus} (hnext : response.transition = some next) :
    (db.applyResponse r.id n.id response).nodeStatus? n.id = some next.1 ∧
      (db.applyResponse r.id n.id response).runStatus? r.id = some next.2 := by
  have hset := fun status outputText errorText =>
    setNode_nodeStatus hk hn status outputText errorText
  have hkset : ∀ status outputText errorText, (db.setNode n.id status outputText errorText).Keyed :=
    fun _ _ _ => setNodes_keyed ⟨fun _ => rfl, fun _ => rfl⟩ hk
  cases response with
  | arenaWinner => cases hnext
  | approve output =>
    obtain rfl := Option.some.inj hnext
    exact ⟨hset .succeeded (some output) none, setRun_runStatus hr _ _⟩
  | branch output skipped =>
    obtain rfl := Option.some.inj hnext
    have hskip := sound_foldl (fun db t => sound_skipTarget db r.id t) skipped
      (db.setNode n.id .succeeded (some output) none)
    refine ⟨hskip.nodeStatus (hkset _ _ _) (hset .succeeded (some output) none) rfl,
      setRun_runStatus ?_ _ _⟩
    rw [skipTargets_runs]
    exact hr
  | reject error =>
    obtain rfl := Option.some.inj hnext
    have hskip : (db.setNode n.id .failed none (some error)).Sound
        ((db.setNode n.id .failed none (some error)).setPendingNodes r.id .skipped) :=
      sound_setPendingNodes _ r.id (by decide)
    exact ⟨hskip.nodeStatus (hkset _ _ _) (hset .failed none (some error)) rfl,
      setRun_runStatus hr _ _⟩

theorem claimInteraction_claims (hk : db.Keyed) (runId : ℕ) (nodeId : String)
    (expected : Option ℕ) (awaited : Awaited) (response : InteractionResponse) :
    db.Claims (db.claimInteraction runId nodeId expected awaited response).2 runId awaited response
      (db.claimInteraction runId nodeId expected awaited response).1 := by
  rw [claimInteraction]
  split
  · rfl
  · rename_i n hcand
    split_ifs with hanswered
    · rfl
    · obtain ⟨hn, _, _, hs, r, hr, rfl, _⟩ := claimCandidate_some hcand
      refine ⟨by rw [nodeStatus_of_mem hk hn, hs], ?_, ?_, ?_⟩
      · simpa using hanswered
      · exact (apart_applyResponse (db.recordResponse n.id response) r.id n.id response).responses
      · have hkrecord : (db.recordResponse n.id response).Keyed :=
          ⟨⟨hk.ids, hk.fresh, hk.keys⟩, hk.runIds⟩
        split
        · rename_i next hnext
          exact applyResponse_transition hkrecord hn hr hnext
        · rename_i hnext
          cases response with
          | arenaWinner => exact ⟨rfl, rfl⟩
          | _ => cases hnext

/-- The transition of an answer is final for its execution. -/
theorem transition_nodeStatus (hsound : db.Sound db') (hk : db.Keyed) {executionId : ℕ}
    {response : InteractionResponse} {next : NodeExecutionStatus × WorkflowRunStatus}
    (hnext : response.transition = some next) (h : db.nodeStatus? executionId = some next.1) :
    db'.nodeStatus? executionId = some next.1 := by
  refine hsound.nodeStatus hk h ?_
  cases response with
  | arenaWinner => cases hnext
  | _ =>
    obtain rfl := Option.some.inj hnext
    rfl

theorem Answered.of_sound (h : db.Answered) (hk : db.Keyed) (hsound : db.Sound db')
    (hresponses : db'.responses = db.responses) : db'.Answered := by
  refine ⟨hresponses ▸ h.once, fun r hr next hnext => ?_⟩
  rw [hresponses] at hr
  exact transition_nodeStatus hsound hk hnext (h.applied r hr next hnext)

theorem Claims.answered {runId : ℕ} {awaited : Awaited} {response : InteractionResponse}
    {answer : Option (ℕ × ℤ)} (h : db.Claims db' runId awaited response answer)
    (hsound : db.Sound db') (hk : db.Keyed) (hanswered : db.Answered) : db'.Answered := by
  cases answer with
  | none => exact h ▸ hanswered
  | some won =>
    obtain ⟨_, hfirst, hrecord, hmoved⟩ := h
    refine ⟨?_, fun r hr next hnext => ?_⟩
    · rw [hrecord, List.map_append, List.nodup_append']
      refine ⟨hanswered.once, by simp, ?_⟩
      rw [List.disjoint_left]
      intro id hid hlast
      obtain ⟨r, hr, rfl⟩ := List.mem_map.mp hid
      exact hfirst r hr (by simpa using hlast)
    · rw [hrecord] at hr
      rcases List.mem_append.mp hr with hr | hr
      · exact transition_nodeStatus hsound hk hnext (hanswered.applied r hr next hnext)
      · obtain rfl := List.mem_singleton.mp hr
        rw [show response.transition = some next from hnext] at hmoved
        exact hmoved.1

end Db

/-- What an interleaving from `db₀` did to the answers: the earlier ones are followed by those of
the successful claims. -/
structure AnswersFrom (db₀ : Db) (tr : List (Sigma Stmt.Ans)) (db : Db) : Prop where
  keyed : db.Keyed
  answered : db.Answered
  records : db.responses.map (·.nodeExecutionId) =
    db₀.responses.map (·.nodeExecutionId) ++ (tr.filterMap claimedExecution).reverse

theorem Stmt.Exec.claims {fromStr : String → Option Json} {runId : ℕ} {nodeId : String}
    {expected : Option ℕ} {awaited : Awaited} {response : InteractionResponse} {db db' : Db}
    {answer : Option (ℕ × ℤ)} (hk : db.Keyed)
    (h : (Stmt.claimInteraction runId nodeId expected awaited response).Exec fromStr db answer db') :
    db.Claims db' runId awaited response answer := by
  have heq : db.claimInteraction runId nodeId expected awaited response = (answer, db') :=
    Option.some.inj h
  have hclaims := Db.claimInteraction_claims hk runId nodeId expected awaited response
  rwa [heq] at hclaims

theorem AnswersFrom.quiet {db₀ db db' : Db} {tr : List (Sigma Stmt.Ans)}
    (h : AnswersFrom db₀ tr db) (hsound : db.Sound db') (hresponses : db'.responses = db.responses) :
    AnswersFrom db₀ tr db' :=
  ⟨(hsound h.keyed).1, h.answered.of_sound h.keyed hsound hresponses, hresponses ▸ h.records⟩

theorem AnswersFrom.step {fromStr : String → Option Json} {db₀ db db' : Db}
    {tr : List (Sigma Stmt.Ans)} {s : Stmt} {a : s.Ans} (h : AnswersFrom db₀ tr db)
    (hs : s.Exec fromStr db a db') : AnswersFrom db₀ (⟨s, a⟩ :: tr) db' := by
  have hquiet : claimedExecution ⟨s, a⟩ = none → db'.responses = db.responses →
      AnswersFrom db₀ (⟨s, a⟩ :: tr) db' := by
    intro hnone hresponses
    have hafter := h.quiet hs.sound hresponses
    refine ⟨hafter.keyed, hafter.answered, ?_⟩
    rw [List.filterMap_cons_none hnone, hafter.records]
  cases s with
  | claimInteraction runId nodeId expected awaited response =>
    have hclaims := hs.claims h.keyed
    refine ⟨(hs.sound h.keyed).1, hclaims.answered hs.sound h.keyed h.answered, ?_⟩
    rcases a with _ | ⟨executionId, iteration⟩
    · obtain rfl : db' = db := hclaims
      exact h.records
    · obtain ⟨_, _, hrecord, _⟩ := hclaims
      have htrace : (⟨.claimInteraction runId nodeId expected awaited response,
          some (executionId, iteration)⟩ :: tr : List (Sigma Stmt.Ans)).filterMap claimedExecution =
          executionId :: tr.filterMap claimedExecution := rfl
      rw [hrecord, List.map_append, h.records, htrace, List.reverse_cons, List.append_assoc]
      rfl
  | claimNext => exact hquiet rfl (run_snd hs ▸ Db.claimNext_responses db)
  | releaseTerminal runId => exact hquiet rfl (run_snd hs ▸ Db.releaseTerminal_responses db runId)
  | _ => exact hquiet rfl (hs.apart rfl).responses

theorem Interleaves.answersFrom {config : Config} {db : Db} {w : System} (hkeys : db.Keyed)
    (hanswered : db.Answered) (h : Interleaves config unguarded (.start db) w) :
    AnswersFrom db w.trace w.state := by
  refine Steps.inv (fun _ _ _ _ _ hI _ hs => hI.step hs) ?_ h
    ⟨hkeys, hanswered, by simp [World.start]⟩
  rintro tr x y hI ⟨o, rfl⟩
  exact hI.quiet (Db.sound_orchestration ⟨o, rfl⟩) rfl

/-- Over any interleaving at most one claim succeeds for each execution, and none for one that
was answered before. A claim that loses changes nothing, a claim that wins records its answer and
makes its transitions at once, and no state shows a recorded answer without its transition. -/
theorem interaction_answered_once {config : Config} {db : Db} {w : System} (hkeys : db.Keyed)
    (hanswered : db.Answered) (h : Interleaves config unguarded (.start db) w) :
    (w.trace.filterMap claimedExecution).Nodup ∧
    (∀ id ∈ w.trace.filterMap claimedExecution, ∀ r ∈ db.responses, r.nodeExecutionId ≠ id) ∧
    w.state.Answered ∧
    ∀ runId nodeId expected awaited response answer db',
      (Stmt.claimInteraction runId nodeId expected awaited response).Exec config.router.json.fromStr
        w.state answer db' → w.state.Claims db' runId awaited response answer := by
  have hI := h.answersFrom hkeys hanswered
  have honce := hI.answered.once
  rw [hI.records, List.nodup_append', List.nodup_reverse] at honce
  refine ⟨honce.2.1, fun id hid r hr heq => ?_, hI.answered, fun _ _ _ _ _ _ _ => ?_⟩
  · exact honce.2.2 (List.mem_map_of_mem hr) (by simpa [heq] using hid)
  · exact Stmt.Exec.claims hI.keyed

section Fixture

/-- A run that waits at one node of the given kind. -/
def waitingDb (kind : WorkflowNodeKind) (status : NodeExecutionStatus)
    (runStatus : WorkflowRunStatus) : Db := { Db.empty with
  runs := [⟨1, none, 0, ⟨2, [⟨"stop", kind, none, none⟩], [], none⟩, "input", runStatus, none,
    none, none⟩]
  nodeExecutions := [⟨0, 1, "stop", kind, 0, status, none, none, some 5⟩]
  nextId := 1 }

/-- A rejection and an approval race for one gate; the rejection wins. -/
theorem interaction_answered_once_race : ∃ w : System,
    Interleaves Config.plain unguarded (.start (waitingDb .humanGate .awaitingHuman .awaitingHuman))
      w ∧ w.trace.length = 4 ∧ (w.trace.filterMap claimedExecution).Nodup ∧
      w.state.nodeStatus? 0 = some .failed := by
  have hkeys : (waitingDb .humanGate .awaitingHuman .awaitingHuman).Keyed :=
    ⟨⟨by decide, by decide, by decide⟩, by decide⟩
  obtain ⟨w, hw, hlength, hmem⟩ : ∃ w : System, follow (Stmt.accept Config.plain unguarded)
      [0, 1, 0, 1] ⟨[], waitingDb .humanGate .awaitingHuman .awaitingHuman,
        [rejectHumanNode 1 "stop" none, approveHumanNode Config.plain 1 1 "stop" none]⟩ = some w ∧
      w.trace.length = 4 ∧ ⟨0, .reject "Human gate rejected"⟩ ∈ w.state.responses :=
    ⟨_, rfl, rfl, by decide⟩
  have hstart : Interleaves Config.plain unguarded _ _ := start_interleaves unguarded
    (waitingDb .humanGate .awaitingHuman .awaitingHuman) (by
      intro p hp
      rcases List.mem_pair.mp hp with rfl | rfl
      · exact Operation.reject 1 "stop" none
      · exact Operation.approve 1 1 "stop" none)
  have hrun := hstart.trans (follow_interleaves hw)
  obtain ⟨honce, _, hanswered, _⟩ := interaction_answered_once hkeys ⟨by decide, by decide⟩ hrun
  exact ⟨w, hrun, hlength, honce, hanswered.applied _ hmem _ rfl⟩

/-- The winner of an Arena is recorded while its execution and its run still wait. -/
theorem arena_winner_recorded_alone : ∃ w : System,
    Interleaves Config.plain unguarded (.start (waitingDb .arena .awaitingArena .awaitingArena)) w ∧
      w.trace.filterMap claimedExecution = [0] ∧ w.state.responses = [⟨0, .arenaWinner 7⟩] ∧
      w.state.nodeStatus? 0 = some .awaitingArena ∧
      w.state.runStatus? 1 = some .awaitingArena := by
  obtain ⟨w, hw, hstate⟩ : ∃ w : System, follow (Stmt.accept Config.plain unguarded)
      [0, 0, 0] ⟨[], waitingDb .arena .awaitingArena .awaitingArena,
        [selectArenaWinner Config.plain 1 1 "stop" none 7]⟩ = some w ∧
      w.trace.filterMap claimedExecution = [0] ∧ w.state.responses = [⟨0, .arenaWinner 7⟩] ∧
      w.state.nodeStatus? 0 = some .awaitingArena ∧
      w.state.runStatus? 1 = some .awaitingArena := ⟨_, rfl, rfl, rfl, rfl, rfl⟩
  have hstart : Interleaves Config.plain unguarded _ _ := start_interleaves unguarded
    (waitingDb .arena .awaitingArena .awaitingArena) (by
      intro p hp
      rw [List.mem_singleton.mp hp]
      exact Operation.winner 1 1 "stop" none 7)
  exact ⟨w, hstart.trans (follow_interleaves hw), hstate⟩

end Fixture

end VibeKanban.Runtime
