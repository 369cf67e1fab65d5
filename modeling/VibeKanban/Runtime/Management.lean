import VibeKanban.Runtime.QueueMoves
import VibeKanban.Runtime.Submission

/-! Calls of the management interface: who may submit, what a replay answers, and every order in
which calls and the runtime interleave. -/
namespace VibeKanban.Runtime
open Lib Workflow

/-- A request as its caller wrote it. -/
structure SubmissionRequest where
  requestId : String
  action : WorkflowSubmissionAction
  inputText : Option String
  materialPaths : List String
  sourceRunId : Option ℕ
  sourceNodeExecutionId : Option ℕ
  roots : Option (List String)
  activePolicy : Option WorkflowActivePolicy
  sourceMessageId : Option ℕ
  deriving DecidableEq, Repr

inductive WorkflowManagementCaller where
  | mainSession (sessionId : ℕ)
  | ofInstance (instanceId : ℕ) (callerNamespace : String)
  deriving DecidableEq, Repr

/-- What a caller resolves to besides its instance. -/
structure ManagementScope where
  issueId : ℕ
  projectId : ℕ
  graph : WorkflowGraph
  sourceMessageId : Option ℕ

/-- A Session and the instance it is the main Session of. -/
structure MainSession where
  sessionId : ℕ
  instanceId : ℕ
  deriving DecidableEq, Repr

/-- The database with the main Sessions of its instances. -/
structure Portal where
  db : Db
  sessions : List MainSession

def validateRequestId (value : String) : Except String Unit :=
  if isBlank value ∨ 200 < value.length then .error "request_id must contain 1–200 characters"
  else .ok ()

def isDevice (stem : List Char) : Bool :=
  ["CON".toList, "PRN".toList, "AUX".toList, "NUL".toList].contains stem ||
    (stem.length == 4 && ["COM".toList, "LPT".toList].contains (stem.take 3) &&
      stem.getLast?.any fun c => '1' ≤ c && c ≤ '9')

/-- The parts of a project-relative path, joined again. -/
def relativePath (raw : String) : Except String String :=
  let normalized := (replaceChar '\\' '/' raw).toList
  if normalized.head? = some '/' ∨ '\x00' ∈ normalized ∨ ':' ∈ normalized then
    .error "Path must be project-relative"
  else
    let parts := (normalized.splitOn '/').filter fun part => !part.isEmpty && part != ['.']
    if parts.any fun part => part == ['.', '.'] || part.getLast? == some ' ' ||
        part.getLast? == some '.' || isDevice (((part.splitOn '.').headD []).map Char.toUpper) then
      .error "Path has an unsafe component"
    else .ok (String.ofList (['/'].intercalate parts))

/-- The accepted requirements, with the materials they refer to. -/
def SubmissionRequest.text (request : SubmissionRequest) (materials : List String) :
    Option String :=
  request.inputText.map fun input =>
    if isBlank input || materials.isEmpty then input
    else input ++ "\n\nProject-relative materials:\n" ++ "\n".intercalate materials

/-- The checked request and its hash. -/
def SubmissionRequest.submission (hash : SubmissionRequest → String) (request : SubmissionRequest)
    (materials : List String) : WorkflowSubmission :=
  ⟨request.requestId, hash request, request.action, request.text materials, request.sourceRunId,
    request.sourceNodeExecutionId, request.roots, request.activePolicy⟩

namespace Portal

def boundInstance (p : Portal) (sessionId : ℕ) : Option ℕ :=
  (p.sessions.find? fun s => s.sessionId = sessionId).map (·.instanceId)

def resolveScope (p : Portal) (caller : WorkflowManagementCaller) (scope : ManagementScope) :
    Except String SubmissionScope :=
  match caller with
  | .mainSession sessionId => .ok ⟨"main-session:" ++ toString sessionId, p.boundInstance sessionId,
      scope.issueId, scope.projectId, scope.graph⟩
  | .ofInstance instanceId callerNamespace =>
    if p.db.attempts.any fun a => a.id == instanceId then
      .ok ⟨callerNamespace, some instanceId, scope.issueId, scope.projectId, scope.graph⟩
    else .error "Workflow instance not found"

/-- A main Session keeps its instance and an instance its main Session. -/
def attach (p : Portal) (sessionId instanceId : ℕ) : Except String (List MainSession) :=
  if p.sessions.any fun s => s.instanceId == instanceId && s.sessionId != sessionId then
    .error "Workflow instance already had a different main Session"
  else if p.sessions.any fun s => s.sessionId == sessionId && s.instanceId != instanceId then
    .error "UNIQUE constraint failed: workflow_attempts.main_session_id"
  else if p.sessions.contains ⟨sessionId, instanceId⟩ then .ok p.sessions
  else .ok (p.sessions ++ [⟨sessionId, instanceId⟩])

section
variable (hash : SubmissionRequest → String) (fromStr : String → Option Json)

/-- The run of an earlier acceptance; a call reads it before its transaction and again in it. -/
def replay (p : Portal) (caller : WorkflowManagementCaller) (scope : ManagementScope)
    (request : SubmissionRequest) : Except String (Option ℕ) := do
  validateRequestId request.requestId
  let materials ← request.materialPaths.mapM relativePath
  let resolved ← p.resolveScope caller scope
  match p.db.replayed resolved (request.submission hash materials) with
  | none => return none
  | some row =>
    if row.requestHash ≠ hash request then
      .error "IDEMPOTENCY_CONFLICT: request_id has different parameters"
    else return some row.runId

/-- The transaction of a call: a replay, or the acceptance of a new run. -/
def submitWorkflow (p : Portal) (caller : WorkflowManagementCaller) (scope : ManagementScope)
    (request : SubmissionRequest) (runId : ℕ) : Except String (ℕ × Portal) := do
  match ← p.replay hash caller scope request with
  | some id => return (id, p)
  | none =>
    if request.sourceMessageId.isSome ∧ request.sourceMessageId ≠ scope.sourceMessageId then
      .error "source_message_id must be the real User input of this verified main-Agent launch"
    else
      let materials ← request.materialPaths.mapM relativePath
      let resolved ← p.resolveScope caller scope
      let (id, db) ← p.db.submit fromStr resolved (request.submission hash materials) runId
      match caller with
      | .ofInstance .. => return (id, ⟨db, p.sessions⟩)
      | .mainSession sessionId =>
        match db.submissions.find? fun s => s.runId = id with
        | none => .error "Workflow instance was not prepared"
        | some row => return (id, ⟨db, ← p.attach sessionId row.instanceId⟩)

/-- What happens to the database: a call is accepted, an instance is created or gets its main
Session, or the runtime executes a statement. A refused call and a read change nothing. -/
inductive Step (p : Portal) : Portal → Prop where
  | submit {p' : Portal} {caller : WorkflowManagementCaller} {scope : ManagementScope}
    {request : SubmissionRequest} {runId id : ℕ} :
      p.submitWorkflow hash fromStr caller scope request runId = .ok (id, p') → Step p p'
  | createAttempt (issueId : ℕ) (graph : WorkflowGraph) : Step p ⟨{ p.db with
      attempts := p.db.attempts ++ [⟨p.db.nextId, issueId, graph, none⟩]
      nextId := p.db.nextId + 1 }, p.sessions⟩
  | prepare {sessionId instanceId : ℕ} {sessions : List MainSession} :
      instanceId ∈ p.db.attempts.map (·.id) → p.attach sessionId instanceId = .ok sessions →
        Step p ⟨p.db, sessions⟩
  | runtime {s : Stmt} {a : s.Ans} {db : Db} :
      (s.accepts = false ∨ ∃ runId, s = .syncAttempt runId) → s.Exec fromStr p.db a db →
        Step p ⟨db, p.sessions⟩

inductive Steps (p : Portal) : Portal → Prop where
  | refl : Steps p p
  | step {q r : Portal} : Steps p q → q.Step hash fromStr r → Steps p r

end

/-- Nothing submitted yet. -/
def empty : Portal := ⟨Db.empty, []⟩

/-- The ledger is in order and a Session is the main Session of one instance. -/
structure InOrder (p : Portal) : Prop where
  db : p.db.InOrder
  sessionIds : (p.sessions.map (·.sessionId)).Nodup

theorem inOrder_empty : empty.InOrder := by
  refine ⟨⟨List.nodup_nil, List.nodup_nil, rfl, List.nodup_nil, ?_, ?_, ?_, ?_⟩, List.nodup_nil⟩
  · intro a ha
    cases ha
  · intro a ha
    cases ha
  · intro a ha
    cases ha
  · intro id
    trivial

/-- Acceptances and bindings are only added. -/
structure Extends (p q : Portal) : Prop where
  acceptances : p.db.acceptances <+: q.db.acceptances
  sessions : p.sessions <+: q.sessions
  attempts : p.db.attempts.map (·.id) ⊆ q.db.attempts.map (·.id)

variable {hash : SubmissionRequest → String} {fromStr : String → Option Json} {p q r : Portal}

theorem Extends.refl (p : Portal) : p.Extends p :=
  ⟨List.prefix_rfl, List.prefix_rfl, List.Subset.refl _⟩

theorem Extends.trans (h : p.Extends q) (h' : q.Extends r) : p.Extends r :=
  ⟨h.acceptances.trans h'.acceptances, h.sessions.trans h'.sessions,
    List.Subset.trans h.attempts h'.attempts⟩

theorem attach_cases {sessionId instanceId : ℕ} {sessions : List MainSession}
    (h : p.attach sessionId instanceId = .ok sessions) :
    ⟨sessionId, instanceId⟩ ∈ sessions ∧ p.sessions <+: sessions ∧
      ((p.sessions.map (·.sessionId)).Nodup → (sessions.map (·.sessionId)).Nodup) := by
  unfold attach at h
  split_ifs at h with hother hbound hsame
  · obtain rfl := Except.ok.inj h
    exact ⟨by simpa using hsame, List.prefix_rfl, id⟩
  · obtain rfl := Except.ok.inj h
    refine ⟨by simp, List.prefix_append _ _, fun hnodup => ?_⟩
    rw [List.map_append, List.nodup_append']
    refine ⟨hnodup, by simp, ?_⟩
    -- a Session that is bound already is bound to this instance
    simp only [List.map_cons, List.map_nil, List.disjoint_singleton, List.mem_map, not_exists,
      not_and]
    intro s hs hid
    have hinstance : s.instanceId = instanceId := by
      by_contra hne
      exact hbound (List.any_eq_true.mpr ⟨s, hs, by simp [hid, hne]⟩)
    have hrow : s = ⟨sessionId, instanceId⟩ := by
      cases s
      simp_all
    exact hsame (by simpa using hrow ▸ hs)

/-- What a call that read the ledger found. -/
theorem replay_cases {caller : WorkflowManagementCaller} {scope : ManagementScope}
    {request : SubmissionRequest} {found : Option ℕ}
    (h : p.replay hash caller scope request = .ok found) :
    ∃ materials resolved, validateRequestId request.requestId = .ok () ∧
      request.materialPaths.mapM relativePath = .ok materials ∧
      p.resolveScope caller scope = .ok resolved ∧
      ((found = none ∧ p.db.replayed resolved (request.submission hash materials) = none) ∨
        ∃ row, p.db.replayed resolved (request.submission hash materials) = some row ∧
          row.requestHash = hash request ∧ found = some row.runId) := by
  unfold replay at h
  obtain ⟨_, hvalid, h⟩ := except_bind_ok h
  obtain ⟨materials, hmaterials, h⟩ := except_bind_ok h
  obtain ⟨resolved, hresolved, h⟩ := except_bind_ok h
  refine ⟨materials, resolved, hvalid, hmaterials, hresolved, ?_⟩
  split at h
  · rename_i hnone
    exact Or.inl ⟨(Except.ok.inj h).symm, hnone⟩
  · rename_i row hrow
    split_ifs at h with hhash
    exact Or.inr ⟨row, hrow, not_not.mp hhash, (Except.ok.inj h).symm⟩

/-- What an accepted call did. -/
theorem submitWorkflow_cases {caller : WorkflowManagementCaller} {scope : ManagementScope}
    {request : SubmissionRequest} {runId id : ℕ}
    (h : p.submitWorkflow hash fromStr caller scope request runId = .ok (id, q)) :
    (p.replay hash caller scope request = .ok (some id) ∧ q = p) ∨
      p.replay hash caller scope request = .ok none ∧ ∃ materials resolved,
        request.materialPaths.mapM relativePath = .ok materials ∧
        p.resolveScope caller scope = .ok resolved ∧
        p.db.submit fromStr resolved (request.submission hash materials) runId = .ok (id, q.db) ∧
        match caller with
        | .ofInstance .. => q.sessions = p.sessions
        | .mainSession sessionId => ∃ row ∈ q.db.submissions, row.runId = id ∧
            p.attach sessionId row.instanceId = .ok q.sessions := by
  unfold submitWorkflow at h
  obtain ⟨found, hfound, h⟩ := except_bind_ok h
  cases found with
  | some found =>
    obtain ⟨rfl, rfl⟩ := Prod.mk.inj (Except.ok.inj h)
    exact Or.inl ⟨hfound, rfl⟩
  | none =>
    simp only at h
    split_ifs at h with hmessage
    obtain ⟨materials, hmaterials, h⟩ := except_bind_ok h
    obtain ⟨resolved, hresolved, h⟩ := except_bind_ok h
    obtain ⟨⟨accepted, db⟩, hsubmit, h⟩ := except_bind_ok h
    refine Or.inr ⟨hfound, materials, resolved, hmaterials, hresolved, ?_⟩
    cases caller with
    | ofInstance instanceId callerNamespace =>
      obtain ⟨rfl, rfl⟩ := Prod.mk.inj (Except.ok.inj h)
      exact ⟨hsubmit, rfl⟩
    | mainSession sessionId =>
      simp only at h
      split at h
      · cases h
      · rename_i row hrow
        obtain ⟨sessions, hsessions, h⟩ := except_bind_ok h
        obtain ⟨rfl, rfl⟩ := Prod.mk.inj (Except.ok.inj h)
        exact ⟨hsubmit, row, List.mem_of_find?_eq_some hrow, by simpa using List.find?_some hrow,
          hsessions⟩

end Portal

/-- The namespace of the requests of a caller. -/
def WorkflowManagementCaller.callerNamespace : WorkflowManagementCaller → String
  | mainSession sessionId => "main-session:" ++ toString sessionId
  | ofInstance _ callerNamespace => callerNamespace

namespace Portal
variable {hash : SubmissionRequest → String} {fromStr : String → Option Json} {p q r : Portal}
  {caller : WorkflowManagementCaller} {scope : ManagementScope} {request : SubmissionRequest}

/-- A caller is bound to an instance. -/
def Bound (p : Portal) (instanceId : ℕ) : WorkflowManagementCaller → Prop
  | .mainSession sessionId => ⟨sessionId, instanceId⟩ ∈ p.sessions
  | .ofInstance id _ => id = instanceId ∧ id ∈ p.db.attempts.map (·.id)

/-- A request of a caller stands accepted. -/
def Stands (hash : SubmissionRequest → String) (p : Portal) (caller : WorkflowManagementCaller)
    (request : SubmissionRequest) (runId : ℕ) : Prop :=
  ∃ instanceId, p.Bound instanceId caller ∧ ∃ a ∈ p.db.acceptances,
    a.key = (caller.callerNamespace, instanceId, request.requestId) ∧
      a.requestHash = hash request ∧ a.runId = runId

theorem Stands.extends {runId : ℕ} (h : p.Stands hash caller request runId) (hext : p.Extends q) :
    q.Stands hash caller request runId := by
  obtain ⟨instanceId, hbound, a, ha, hrest⟩ := h
  refine ⟨instanceId, ?_, a, hext.acceptances.subset ha, hrest⟩
  cases caller with
  | mainSession sessionId => exact hext.sessions.subset hbound
  | ofInstance id callerNamespace => exact ⟨hbound.1, hext.attempts hbound.2⟩

theorem InOrder.resolveScope (h : p.InOrder) {instanceId : ℕ} (hbound : p.Bound instanceId caller)
    (scope : ManagementScope) : p.resolveScope caller scope = .ok ⟨caller.callerNamespace,
      some instanceId, scope.issueId, scope.projectId, scope.graph⟩ := by
  cases caller with
  | mainSession sessionId =>
    have hfind : p.boundInstance sessionId = some instanceId := by
      unfold boundInstance
      rw [find_unique hbound (by simp) fun s hs hid => ?_]
      · rfl
      · exact List.inj_on_of_nodup_map h.sessionIds hs hbound (of_decide_eq_true hid)
    simp only [Portal.resolveScope, hfind]
    rfl
  | ofInstance id callerNamespace =>
    obtain ⟨rfl, hmem⟩ := hbound
    obtain ⟨a, ha, hid⟩ := List.mem_map.mp hmem
    simp only [Portal.resolveScope]
    rw [if_pos (List.any_eq_true.mpr ⟨a, ha, by simpa using hid⟩)]
    rfl

theorem bound_of_resolveScope {resolved : SubmissionScope} {instanceId : ℕ}
    (h : p.resolveScope caller scope = .ok resolved) (hid : resolved.instanceId = some instanceId) :
    p.Bound instanceId caller := by
  cases caller with
  | mainSession sessionId =>
    obtain rfl := Except.ok.inj h
    obtain ⟨s, hs, rfl⟩ := Option.map_eq_some_iff.mp hid
    have hsession : s.sessionId = sessionId := by simpa using List.find?_some hs
    exact hsession ▸ List.mem_of_find?_eq_some hs
  | ofInstance id callerNamespace =>
    simp only [Portal.resolveScope] at h
    split_ifs at h with hany
    obtain rfl := Except.ok.inj h
    obtain ⟨a, ha, hsame⟩ := List.any_eq_true.mp hany
    exact ⟨Option.some.inj hid, (by simpa using hsame) ▸ List.mem_map_of_mem ha⟩

theorem resolveScope_namespace {resolved : SubmissionScope}
    (h : p.resolveScope caller scope = .ok resolved) :
    resolved.callerNamespace = caller.callerNamespace := by
  cases caller with
  | mainSession sessionId =>
    obtain rfl := Except.ok.inj h
    rfl
  | ofInstance id callerNamespace =>
    simp only [Portal.resolveScope] at h
    split_ifs at h
    obtain rfl := Except.ok.inj h
    rfl

/-- An acceptance that stands is found again under its request. -/
theorem Stands.replayed {runId : ℕ} (h : p.Stands hash caller request runId) (horder : p.InOrder)
    {other : SubmissionRequest} (materials : List String) {resolved : SubmissionScope}
    (hid : other.requestId = request.requestId)
    (hresolved : p.resolveScope caller scope = .ok resolved) :
    ∃ row, p.db.replayed resolved (other.submission hash materials) = some row ∧
      row.requestHash = hash request ∧ row.runId = runId := by
  obtain ⟨instanceId, hbound, a, ha, hkey, hhash, hrun⟩ := h
  rw [horder.resolveScope hbound scope] at hresolved
  obtain rfl := Except.ok.inj hresolved
  obtain ⟨row, hrow, rfl⟩ := List.mem_map.mp ha
  refine ⟨row, ?_, hhash, hrun⟩
  have hnamed : ∀ s : SubmissionRow, s.acceptance.key =
      (caller.callerNamespace, instanceId, request.requestId) ↔
        some s.instanceId = some instanceId ∧ s.callerNamespace = caller.callerNamespace ∧
          s.requestId = (other.submission hash materials).requestId := by
    intro s
    simp only [Acceptance.key, SubmissionRow.acceptance, SubmissionRequest.submission, hid,
      Prod.mk.injEq, Option.some.injEq]
    tauto
  refine find_unique hrow (decide_eq_true ((hnamed row).mp hkey)) fun s hs hsame => ?_
  have hrows : (p.db.submissions.map fun s => s.acceptance.key).Nodup := by
    have hkeys := horder.db.keys
    unfold Db.acceptances at hkeys
    rwa [List.map_map] at hkeys
  exact List.inj_on_of_nodup_map hrows hs hrow
    (((hnamed s).mpr (of_decide_eq_true hsame)).trans hkey.symm)

/-- Every later call with the request returns its run and changes nothing. -/
theorem Stands.again {runId : ℕ} (h : p.Stands hash caller request runId) (horder : p.InOrder)
    (hvalid : validateRequestId request.requestId = .ok ()) {materials : List String}
    (hmaterials : request.materialPaths.mapM relativePath = .ok materials)
    (scope : ManagementScope) (other : ℕ) :
    p.replay hash caller scope request = .ok (some runId) ∧
      p.submitWorkflow hash fromStr caller scope request other = .ok (runId, p) := by
  have hreplay : p.replay hash caller scope request = .ok (some runId) := by
    obtain ⟨instanceId, hbound, _⟩ := id h
    have hresolved := horder.resolveScope hbound scope
    obtain ⟨row, hrow, hhash, hrun⟩ := h.replayed horder materials rfl hresolved
    unfold replay
    rw [hvalid, hmaterials, hresolved]
    change (match p.db.replayed _ (request.submission hash materials) with
      | none => pure none
      | some row => if row.requestHash ≠ hash request then _ else pure (some row.runId)) = _
    rw [hrow]
    simp only [hhash, ne_eq, not_true_eq_false, if_false, hrun]
    rfl
  refine ⟨hreplay, ?_⟩
  unfold submitWorkflow
  rw [hreplay]
  rfl

/-- Every later call that uses the request id for something else is refused. -/
theorem Stands.conflict {runId : ℕ} (h : p.Stands hash caller request runId) (horder : p.InOrder)
    {other : SubmissionRequest} (hid : other.requestId = request.requestId)
    (hhash : hash other ≠ hash request) (scope : ManagementScope) (otherRun : ℕ) :
    (∃ error, p.replay hash caller scope other = .error error) ∧
      ∃ error, p.submitWorkflow hash fromStr caller scope other otherRun = .error error := by
  have hrefused : ∀ found, p.replay hash caller scope other ≠ .ok found := by
    intro found hok
    obtain ⟨materials, resolved, _, _, hresolved, hcase⟩ := replay_cases hok
    obtain ⟨row, hrow, hsame, _⟩ := h.replayed horder materials hid hresolved
    rcases hcase with ⟨_, hnone⟩ | ⟨found, hfound, hother, _⟩
    · rw [hnone] at hrow
      cases hrow
    · rw [hrow] at hfound
      obtain rfl := Option.some.inj hfound
      exact hhash (hother.symm.trans hsame)
  cases hreplay : p.replay hash caller scope other with
  | ok found => exact absurd hreplay (hrefused found)
  | error error =>
    refine ⟨⟨error, rfl⟩, error, ?_⟩
    unfold submitWorkflow
    rw [hreplay]
    rfl

/-- An accepted call keeps everything that was accepted, and its request stands. -/
theorem InOrder.submitWorkflow {runId id : ℕ} (h : p.InOrder)
    (hok : p.submitWorkflow hash fromStr caller scope request runId = .ok (id, q)) :
    q.InOrder ∧ p.Extends q ∧ q.Stands hash caller request id ∧
      validateRequestId request.requestId = .ok () ∧
      ∃ materials, request.materialPaths.mapM relativePath = .ok materials := by
  rcases submitWorkflow_cases hok with ⟨hreplay, rfl⟩ | ⟨hreplay, materials, resolved, hmaterials,
    hresolved, hsubmit, hsessions⟩
  · obtain ⟨materials, resolved, hvalid, hmaterials, hresolved, hcase⟩ := replay_cases hreplay
    refine ⟨h, Extends.refl _, ?_, hvalid, materials, hmaterials⟩
    rcases hcase with ⟨hnone, _⟩ | ⟨row, hrow, hhash, hid⟩
    · cases hnone
    · obtain ⟨hmem, hinstance, hcaller, hrequest⟩ := Db.replayed_some hrow
      refine ⟨row.instanceId, bound_of_resolveScope hresolved hinstance.symm, row.acceptance,
        List.mem_map_of_mem hmem, ?_, hhash, (Option.some.inj hid).symm⟩
      rw [← resolveScope_namespace hresolved, ← hcaller]
      exact congrArg (fun requestId => (row.callerNamespace, row.instanceId, requestId)) hrequest
  · obtain ⟨materials', resolved', hvalid, hmaterials', hresolved', hcase⟩ := replay_cases hreplay
    rw [hmaterials] at hmaterials'
    rw [hresolved] at hresolved'
    obtain rfl := Except.ok.inj hmaterials'
    obtain rfl := Except.ok.inj hresolved'
    have hnone : p.db.replayed resolved (request.submission hash materials) = none := by
      rcases hcase with ⟨_, hnone⟩ | ⟨row, _, _, hfound⟩
      · exact hnone
      · cases hfound
    obtain ⟨horder, rfl, instanceId, hscope, hknown, hattempts, haccepted⟩ :=
      h.db.submit hsubmit hnone
    have hmem : (⟨id, instanceId, resolved.callerNamespace, request.requestId, hash request,
        request.sourceRunId⟩ : Acceptance) ∈ q.db.acceptances := by
      rw [haccepted]
      exact List.mem_append_right _ (List.mem_singleton_self _)
    have hnamespace := resolveScope_namespace hresolved
    have hsides : p.sessions <+: q.sessions ∧ (q.sessions.map (·.sessionId)).Nodup ∧
        q.Bound instanceId caller := by
      cases caller with
      | ofInstance i callerNamespace =>
        simp only at hsessions
        rw [hsessions]
        simp only [Portal.resolveScope] at hresolved
        split_ifs at hresolved
        obtain rfl := Except.ok.inj hresolved
        obtain rfl := hscope i rfl
        exact ⟨List.prefix_rfl, h.sessionIds, rfl, hknown⟩
      | mainSession sessionId =>
        obtain ⟨row, hrow, hid, hattach⟩ := hsessions
        have hsame : row.acceptance = ⟨id, instanceId, resolved.callerNamespace, request.requestId,
            hash request, request.sourceRunId⟩ :=
          List.inj_on_of_nodup_map horder.runIds (List.mem_map_of_mem hrow) hmem hid
        have hinstance : row.instanceId = instanceId := congrArg Acceptance.instanceId hsame
        obtain ⟨hbound, hstart, hnodup⟩ := attach_cases hattach
        exact ⟨hstart, hnodup h.sessionIds, hinstance ▸ hbound⟩
    refine ⟨⟨horder, hsides.2.1⟩, ⟨?_, hsides.1, hattempts⟩, ?_, hvalid, materials, hmaterials⟩
    · rw [haccepted]
      exact List.prefix_append _ _
    · exact ⟨instanceId, hsides.2.2, _, hmem, by rw [← hnamespace]; rfl, rfl, rfl⟩

theorem InOrder.step (h : p.InOrder) (hstep : p.Step hash fromStr q) : q.InOrder ∧ p.Extends q := by
  cases hstep with
  | submit hok =>
    obtain ⟨horder, hext, _⟩ := h.submitWorkflow hok
    exact ⟨horder, hext⟩
  | createAttempt issueId graph =>
    refine ⟨⟨h.db.newAttempt issueId graph, h.sessionIds⟩, List.prefix_rfl, List.prefix_rfl, ?_⟩
    rw [List.map_append]
    exact List.subset_append_left _ _
  | prepare _ hattach =>
    obtain ⟨_, hstart, hnodup⟩ := attach_cases hattach
    exact ⟨⟨h.db, hnodup h.sessionIds⟩, List.prefix_rfl, hstart, List.Subset.refl _⟩
  | runtime hs hexec =>
    rcases hs with hs | ⟨runId, rfl⟩
    · have haside := hexec.aside hs
      refine ⟨⟨h.db.aside haside, h.sessionIds⟩, ?_, List.prefix_rfl, ?_⟩
      · rw [haside.acceptances]
      · rw [haside.attempts]
        exact List.Subset.refl _
    · obtain rfl := run_snd hexec
      refine ⟨⟨h.db.syncAttempt runId, h.sessionIds⟩, List.prefix_rfl, List.prefix_rfl, ?_⟩
      unfold Db.syncAttempt
      rw [map_updateWhere (fun a => ?_) p.db.attempts]
      · exact List.Subset.refl _
      · rfl

theorem InOrder.steps (h : p.InOrder) (hsteps : p.Steps hash fromStr q) :
    q.InOrder ∧ p.Extends q := by
  induction hsteps with
  | refl => exact ⟨h, Extends.refl p⟩
  | step _ hstep ih =>
    obtain ⟨horder, hext⟩ := ih.1.step hstep
    exact ⟨horder, ih.2.trans hext⟩

/-- In every state that calls and the runtime reach in any order, a request names one run and the
accepted runs of an instance form a chain; and a call that was accepted answers with its run
whenever it is repeated, and refuses any other request under its id. -/
theorem submitWorkflow_linear (hash : SubmissionRequest → String) (fromStr : String → Option Json)
    (hreach : empty.Steps hash fromStr p) :
    ((p.db.acceptances.map (·.key)).Nodup ∧
      p.db.runs.map (·.owner) = p.db.acceptances.map fun a => (a.runId, some a.instanceId)) ∧
    (∀ instanceId, Linked none (p.db.history instanceId) ∧
      ((p.db.history instanceId).map (·.sourceRunId)).Nodup) ∧
    ∀ {caller : WorkflowManagementCaller} {scope : ManagementScope} {request : SubmissionRequest}
      {runId id : ℕ} {p' : Portal},
      p.submitWorkflow hash fromStr caller scope request runId = .ok (id, p') →
      (∀ other, hash other = hash request → other = request) →
      ∀ q, p'.Steps hash fromStr q → ∀ (scope' : ManagementScope) (runId' : ℕ),
        (q.replay hash caller scope' request = .ok (some id) ∧
          q.submitWorkflow hash fromStr caller scope' request runId' = .ok (id, q)) ∧
        ∀ other : SubmissionRequest, other.requestId = request.requestId → other ≠ request →
          (∃ error, q.replay hash caller scope' other = .error error) ∧
            ∃ error, q.submitWorkflow hash fromStr caller scope' other runId' = .error error := by
  have horder := (inOrder_empty.steps hreach).1
  refine ⟨⟨horder.db.keys, horder.db.runs⟩, fun instanceId => ?_, ?_⟩
  · have hlinked := horder.db.linked instanceId
    refine ⟨hlinked, hlinked.nodup_sources ?_⟩
    exact (List.filter_sublist.map _).nodup horder.db.runIds
  · intro caller scope request runId id p' hok hcollision q hsteps scope' runId'
    obtain ⟨horder', _, hstands, hvalid, materials, hmaterials⟩ := horder.submitWorkflow hok
    obtain ⟨hq, hext⟩ := horder'.steps hsteps
    have hstill := hstands.extends hext
    refine ⟨hstill.again hq hvalid hmaterials scope' runId', fun other hid hne => ?_⟩
    exact hstill.conflict hq hid (fun hsame => hne (hcollision other hsame)) scope' runId'

section Fixture

def firstRequest : SubmissionRequest :=
  ⟨"first", .start, some "build", [], none, none, none, none, none⟩

def secondRequest : SubmissionRequest :=
  ⟨"second", .rework, some "rebuild", [], some 7, none, none, some .afterCurrent, none⟩

def thirdRequest : SubmissionRequest :=
  ⟨"third", .rework, some "extend", [], some 8, none, none, some .stopThenRun, none⟩

/-- SHA-256 on the requests of the example. -/
def chainHash (request : SubmissionRequest) : String :=
  if request = firstRequest then "39efc0c897e6391a3a9d81580c60566a29ad32e17e391dc53046eed3e98e4676"
  else if request = secondRequest then
    "a36e7b827ab2533682c1a7d69d7821adc99c9420fe0fc85364215da21151bdf4"
  else if request = thirdRequest then
    "84b4c286dbc05de9ff5a96b176ea775f6e058310c0d0b06b9d314d03216d260f"
  else "6795f2e3359f5ee0091f362dd5cf87e7073cbf59b75719e000a99459ea5219eb"

theorem chainHash_second (other : SubmissionRequest) (h : chainHash other = chainHash secondRequest) :
    other = secondRequest := by
  have hsecond : chainHash secondRequest =
      "a36e7b827ab2533682c1a7d69d7821adc99c9420fe0fc85364215da21151bdf4" := by decide
  rw [hsecond] at h
  unfold chainHash at h
  split_ifs at h with hfirst hsame
  · exact absurd h (by decide)
  · exact hsame
  · exact absurd h (by decide)
  · exact absurd h (by decide)

def chainScope : ManagementScope := ⟨3, 5, straightGraph, none⟩

/-- An instance with its main Session. -/
def chainPortal : Portal := ⟨{ Db.empty with
  attempts := [⟨0, 3, straightGraph, none⟩]
  nextId := 1 }, [⟨4, 0⟩]⟩

/-- A call on the example. -/
def chainSubmit (p : Portal) (caller : WorkflowManagementCaller) (request : SubmissionRequest)
    (runId : ℕ) : Except String (ℕ × Portal) :=
  p.submitWorkflow chainHash JsonText.codec.fromStr caller chainScope request runId

/-- A run is accepted for an instance, then one that waits for it, and from the main Session one that
replaces the second; the states around the second acceptance and at the end. -/
def chainRun : Except String ((ℕ × Portal) × (ℕ × Portal) × ℕ × Portal) := do
  let first ← chainSubmit chainPortal (.ofInstance 0 "local") firstRequest 7
  let second ← chainSubmit first.2 (.ofInstance 0 "local") secondRequest 8
  let third ← chainSubmit second.2 (.mainSession 4) thirdRequest 9
  return (first, second, third)

theorem chainRun_history : chainRun.map (fun (_, second, third) => (second.1,
    (third.2.db.history 0).map fun a => (a.runId, a.sourceRunId))) =
      .ok (8, [(7, none), (8, some 7), (9, some 8)]) := by
  decide +kernel

/-- The three runs form a chain. The second request, repeated at its end, answers with its run, and with
other parameters it is refused. -/
theorem submitWorkflow_linear_chain : ∃ p p' q : Portal,
    empty.Steps chainHash JsonText.codec.fromStr p ∧
    chainSubmit p (.ofInstance 0 "local") secondRequest 8 = .ok (8, p') ∧
    p'.Steps chainHash JsonText.codec.fromStr q ∧
    (q.db.history 0).map (fun a => (a.runId, a.sourceRunId)) = [(7, none), (8, some 7), (9, some 8)] ∧
    Linked none (q.db.history 0) ∧
    chainSubmit q (.ofInstance 0 "local") secondRequest 10 = .ok (8, q) ∧
    ∃ error, chainSubmit q (.ofInstance 0 "local") { secondRequest with inputText := some "build" }
      10 = .error error := by
  have hstart : empty.Steps chainHash JsonText.codec.fromStr chainPortal :=
    .step (.step .refl (.createAttempt 3 straightGraph))
      (.prepare (List.mem_singleton.mpr rfl) rfl)
  obtain ⟨⟨⟨_, p⟩, ⟨id, p'⟩, ⟨_, q⟩⟩, hrun, hends⟩ : ∃ r, chainRun = .ok r ∧
      (r.2.1.1, (r.2.2.2.db.history 0).map fun a => (a.runId, a.sourceRunId)) =
        (8, [(7, none), (8, some 7), (9, some 8)]) := by
    have hhistory := chainRun_history
    cases hrun : chainRun with
    | ok r =>
      rw [hrun] at hhistory
      exact ⟨r, rfl, Except.ok.inj hhistory⟩
    | error e =>
      rw [hrun] at hhistory
      cases hhistory
  obtain ⟨rfl, hhistory⟩ := Prod.mk.inj hends
  unfold chainRun at hrun
  obtain ⟨first, hfirst, hrun⟩ := except_bind_ok hrun
  obtain ⟨second, hsecond, hrun⟩ := except_bind_ok hrun
  obtain ⟨third, hthird, hrun⟩ := except_bind_ok hrun
  cases Except.ok.inj hrun
  have hp := hstart.step (.submit hfirst)
  have hq := (hp.step (.submit hsecond)).step (.submit hthird)
  have hlater : p'.Steps chainHash JsonText.codec.fromStr q := .step .refl (.submit hthird)
  obtain ⟨-, -, hcalls⟩ := submitWorkflow_linear chainHash JsonText.codec.fromStr hp
  obtain ⟨hagain, hother⟩ := hcalls hsecond chainHash_second q hlater chainScope 10
  obtain ⟨-, hchain, -⟩ := submitWorkflow_linear chainHash JsonText.codec.fromStr hq
  exact ⟨p, p', q, hp, hsecond, hlater, hhistory, (hchain 0).1, hagain.2,
    (hother { secondRequest with inputText := some "build" } rfl (by decide)).2⟩

end Fixture

end Portal

end VibeKanban.Runtime
