import VibeKanban.Lib.JsonText
import VibeKanban.Router.ConditionRouter
import VibeKanban.Workflow.Validation

/-! The stored decision against the planner's reading of it: what the router selected is what
the planner follows. -/
namespace VibeKanban.Router
open Lib Workflow

/-- A route as stored: a partition of the outgoing targets that the planner reads back. -/
structure RouteAgrees (codec : RouterCodec) (graph : WorkflowGraph) (node : WorkflowNode)
    (outputText : String) (selected skipped : List String) : Prop where
  cover : ∀ t, t ∈ conditionOutgoingTargetIds graph node ↔ t ∈ selected ∨ t ∈ skipped
  disjoint : ∀ t ∈ selected, t ∉ skipped
  nonempty : selected ≠ []
  nodup : selected.Nodup
  single : conditionRoutingMode node = .single → ∃ t, selected = [t]
  planner : ∀ t ∈ conditionOutgoingTargetIds graph node,
    conditionOutputSelectsTarget codec.json.fromStr (some outputText) t = true ↔ t ∈ selected

/-- The only raw output and warning that may route without a person: one closed block that
decodes to a selected, highly confident decision of schema version 1. -/
def AutoRoutable (codec : RouterCodec) (rawOutput : String) (warning : Option String)
    (selected : List String) : Prop :=
  ∃ before body after decision,
    rawOutput.toList = before ++ decisionStartTag ++ body ++ decisionEndTag ++ after ∧
    ¬ decisionStartTag <:+: before ∧ ¬ decisionEndTag <:+: body ∧
    ¬ decisionStartTag <:+: after ∧
    codec.decision (String.ofList (trimChars body)) = .ok decision ∧
    decision.schemaVersion = 1 ∧ decision.status = .selected ∧
    decision.confidence = some .high ∧ decision.selectedTargetNodeIds = selected ∧
    nonBlank warning = none

section Payload

theorem jsonStringArrayContains_strings (l : List String) (t : String) :
    jsonStringArrayContains (some (.strings l)) t = true ↔ t ∈ l := by
  simp [jsonStringArrayContains, Json.strings, Json.asArray?, Json.asStr?]

theorem decision_toJson_valid (decision : RouterDecision) : decision.toJson.Valid 126 := by
  have hversion := decision.schemaVersion.toNat_lt
  have hstrings := Json.valid_strings (by norm_num : 0 < 125)
  have hstatus : decision.status.toJson.Valid 125 := by
    cases decision.status <;> exact trivial
  have hconfidence : ((decision.confidence.map RouterDecisionConfidence.toJson).getD .null).Valid 125 := by
    cases decision.confidence with
    | none => exact trivial
    | some c => cases c <;> exact trivial
  refine ⟨by norm_num, by simp, ?_⟩
  simp only [Json.ValidFields, Json.Valid]
  refine ⟨⟨by omega, by omega⟩, hstatus, hstrings _, hstrings _, hconfidence,
    Json.valid_optStr _ _, Json.valid_optStr _ _, trivial⟩

theorem routerOutputPayload_valid (source status : String) (decision : Option RouterDecision)
    (raw : String) (selected skipped : List String) (result : String)
    (reason warning : Option String) (overrode : Bool) :
    (routerOutputPayload source status decision raw selected skipped result reason warning
      overrode).Valid 127 := by
  have hstrings := Json.valid_strings (by norm_num : 0 < 126)
  have hdecision : ((decision.map RouterDecision.toJson).getD .null).Valid 126 := by
    cases decision with
    | none => exact trivial
    | some d => exact decision_toJson_valid d
  refine ⟨by norm_num, by simp, ?_⟩
  simp only [Json.ValidFields, Json.Valid]
  refine ⟨trivial, trivial, trivial, ⟨by norm_num, by norm_num⟩, hdecision, trivial,
    hstrings _, hstrings _, ⟨by norm_num, by simp, trivial, Json.valid_optStr _ _,
      Json.valid_optStr _ _, trivial, trivial⟩, trivial⟩

/-- The planner reads the stored payload exactly as it was selected. -/
theorem conditionOutputSelectsTarget_payload (codec : RouterCodec) (source status : String)
    (decision : Option RouterDecision) (raw : String) (selected skipped : List String)
    (result : String) (reason warning : Option String) (overrode : Bool) (t : String)
    (hd : ∀ d, decision = some d → d.selectedTargetNodeIds = selected) :
    conditionOutputSelectsTarget codec.json.fromStr (some (codec.json.toString
      (routerOutputPayload source status decision raw selected skipped result reason warning
        overrode))) t = true ↔ t ∈ selected := by
  have htop : (routerOutputPayload source status decision raw selected skipped result reason
      warning overrode).get? "selected_target_node_ids" = some (.strings selected) := rfl
  have hinner : ((routerOutputPayload source status decision raw selected skipped result reason
      warning overrode).get? "decision").bind (·.get? "selected_target_node_ids") =
      decision.map fun d => .strings d.selectedTargetNodeIds := by
    cases decision <;> rfl
  simp only [conditionOutputSelectsTarget, codec.json.fromStr_toString _
    (routerOutputPayload_valid source status decision raw selected skipped result reason warning
      overrode), htop, hinner, Bool.or_eq_true, jsonStringArrayContains_strings]
  cases decision with
  | none => simp [jsonStringArrayContains]
  | some d =>
    simp only [Option.map_some, jsonStringArrayContains_strings, hd d rfl, or_self]

end Payload

section Selection
variable {graph : WorkflowGraph} {node : WorkflowNode}

theorem checkSelected_ok {outgoing seen selected : List String}
    (h : checkSelected outgoing seen selected = .ok ()) :
    selected.Nodup ∧ ∀ t ∈ selected, t ∈ outgoing ∧ t ∉ seen := by
  induction selected generalizing seen with
  | nil => simp
  | cons t rest ih =>
    simp only [checkSelected] at h
    split_ifs at h with hs ho
    obtain ⟨hn, hall⟩ := ih h
    refine ⟨List.nodup_cons.mpr ⟨fun hm => (hall t hm).2 List.mem_cons_self, hn⟩, ?_⟩
    intro x hx
    rcases List.mem_cons.mp hx with rfl | hx
    · exact ⟨by simpa using ho, hs⟩
    · exact ⟨(hall x hx).1, fun hseen => (hall x hx).2 (List.mem_cons_of_mem _ hseen)⟩

/-- What an accepted selection is. -/
theorem validateTargetSelection_ok {selected : List String} {selection : ValidatedSelection}
    (h : validateTargetSelection graph node selected = .ok selection) :
    selection.selectedTargetNodeIds = selected ∧ selected ≠ [] ∧ selected.Nodup ∧
      (∀ t ∈ selected, t ∈ conditionOutgoingTargetIds graph node) ∧
      (conditionRoutingMode node = .single → selected.length = 1) ∧
      selection.skippedTargetNodeIds = (conditionOutgoingTargetIds graph node).filter fun t =>
        !selected.contains t := by
  unfold validateTargetSelection at h
  split_ifs at h with hk ho he hm
  · obtain ⟨_, _, h⟩ := except_bind_ok h
    cases h
  obtain ⟨_, hcheck, h⟩ := except_bind_ok h
  obtain rfl := Except.ok.inj h
  obtain ⟨hn, hall⟩ := checkSelected_ok hcheck
  refine ⟨rfl, he, hn, fun t ht => (hall t ht).1, fun hs => ?_, rfl⟩
  by_contra hl
  exact hm ⟨hs, hl⟩

theorem routeAgrees_of_selection {codec : RouterCodec} {selected : List String}
    {selection : ValidatedSelection} {outputText : String}
    (h : validateTargetSelection graph node selected = .ok selection)
    (hplanner : ∀ t, conditionOutputSelectsTarget codec.json.fromStr (some outputText) t = true ↔
      t ∈ selected) :
    RouteAgrees codec graph node outputText selection.selectedTargetNodeIds
      selection.skippedTargetNodeIds := by
  obtain ⟨hsel, hne, hn, hout, hsingle, hskip⟩ := validateTargetSelection_ok h
  rw [hsel, hskip]
  refine ⟨?_, ?_, hne, hn, fun hs => List.length_eq_one_iff.mp (hsingle hs),
    fun t _ => hplanner t⟩
  · intro t
    by_cases ht : t ∈ selected
    · simp [ht, hout t ht]
    · simp [ht]
  · intro t ht
    simp [ht]

end Selection

section Parse
variable {decode : String → Except String RouterDecision} {raw : String}

theorem decisionBlocks_nil {fuel : ℕ} {s : List Char} (h : decisionBlocks (fuel + 1) s = .ok []) :
    ¬ decisionStartTag <:+: s := by
  simp only [decisionBlocks] at h
  cases hs : splitOnce decisionStartTag s with
  | none => exact splitOnce_none hs
  | some p =>
    simp only [hs] at h
    split at h
    · cases h
    · obtain ⟨blocks, _, h⟩ := except_bind_ok h
      cases h

/-- A single block is the whole story: no start tag before or after it, no end tag inside. -/
theorem decisionBlocks_single {fuel : ℕ} {s : List Char} {block : String}
    (h : decisionBlocks (fuel + 2) s = .ok [block]) :
    ∃ before body after, s = before ++ decisionStartTag ++ body ++ decisionEndTag ++ after ∧
      ¬ decisionStartTag <:+: before ∧ ¬ decisionEndTag <:+: body ∧
      ¬ decisionStartTag <:+: after ∧ block = String.ofList (trimChars body) := by
  have hstart : decisionStartTag ≠ [] := by decide
  have hend : decisionEndTag ≠ [] := by decide
  rw [decisionBlocks] at h
  cases hs : splitOnce decisionStartTag s with
  | none => simp [hs] at h
  | some p =>
    obtain ⟨before, rest⟩ := p
    simp only [hs] at h
    cases he : splitOnce decisionEndTag rest with
    | none => simp [he] at h
    | some q =>
      obtain ⟨body, after⟩ := q
      simp only [he] at h
      obtain ⟨blocks, hblocks, h⟩ := except_bind_ok h
      obtain ⟨rfl, rfl⟩ := List.cons.inj (Except.ok.inj h)
      refine ⟨before, body, after, ?_, splitOnce_before hstart hs, splitOnce_before hend he,
        decisionBlocks_nil hblocks, rfl⟩
      rw [splitOnce_some hs, splitOnce_some he]
      simp only [List.append_assoc]

theorem parseRouterDecision_ok {decision : RouterDecision}
    (h : parseRouterDecision decode raw = .ok decision) :
    ∃ before body after,
      raw.toList = before ++ decisionStartTag ++ body ++ decisionEndTag ++ after ∧
      ¬ decisionStartTag <:+: before ∧ ¬ decisionEndTag <:+: body ∧
      ¬ decisionStartTag <:+: after ∧
      decode (String.ofList (trimChars body)) = .ok decision ∧ decision.schemaVersion = 1 := by
  obtain ⟨blocks, hblocks, h⟩ := except_bind_ok h
  split at h
  · cases h
  · rename_i block
    have hfuel : ∃ k, raw.toList.length + 1 = k + 2 := by
      refine ⟨raw.toList.length - 1, ?_⟩
      cases hl : raw.toList with
      | nil =>
        rw [hl] at hblocks
        cases hblocks
      | cons c rest => simp
    obtain ⟨k, hk⟩ := hfuel
    rw [hk] at hblocks
    obtain ⟨before, body, after, heq, h1, h2, h3, rfl⟩ := decisionBlocks_single hblocks
    split at h
    · cases h
    · rename_i d hd
      split_ifs at h with hv
      obtain rfl := Except.ok.inj h
      exact ⟨before, body, after, heq, h1, h2, h3, hd, by simpa using hv⟩
  · cases h

end Parse

section Route
variable {codec : RouterCodec} {graph : WorkflowGraph} {node : WorkflowNode}

theorem evaluateRouterOutput_autoRoute {raw : String} {warning : Option String}
    (h : (evaluateRouterOutput codec raw graph node warning).shouldPause = false) :
    RouteAgrees codec graph node (evaluateRouterOutput codec raw graph node warning).outputText
        (evaluateRouterOutput codec raw graph node warning).selectedTargetNodeIds
        (evaluateRouterOutput codec raw graph node warning).skippedTargetNodeIds ∧
      AutoRoutable codec raw warning
        (evaluateRouterOutput codec raw graph node warning).selectedTargetNodeIds := by
  unfold evaluateRouterOutput at h ⊢
  simp only at h ⊢
  split at h
  · rename_i decision selection heq
    simp only [ConditionRouterCompletion.autoRoute]
    obtain ⟨d, hparse, hvalid⟩ := except_bind_ok heq
    unfold validateRouterDecision at hvalid
    split at hvalid
    · cases hvalid
    · rename_i hwarning
      split_ifs at hvalid with hstatus hconfidence
      obtain ⟨sel, hsel, hvalid⟩ := except_bind_ok hvalid
      obtain ⟨_, hskip, hvalid⟩ := except_bind_ok hvalid
      obtain ⟨rfl, rfl⟩ := Prod.mk.inj (Except.ok.inj hvalid)
      have hids := (validateTargetSelection_ok hsel).1
      obtain ⟨before, body, after, hraw, h1, h2, h3, hdecode, hversion⟩ :=
        parseRouterDecision_ok hparse
      refine ⟨routeAgrees_of_selection hsel fun t => ?_, before, body, after, d, hraw, h1, h2, h3,
        hdecode, hversion, ?_, by simpa using hconfidence, hids.symm, hwarning⟩
      · rw [← hids]
        exact conditionOutputSelectsTarget_payload codec _ _ _ _ _ _ _ _ _ _ t
          fun d' hd' => by rw [← Option.some.inj hd', hids]
      · cases hs : d.status with
        | selected => rfl
        | needsUser => exact absurd hs hstatus
  · simp [ConditionRouterCompletion.pause, ConditionRouterCompletion.shouldPause] at h

theorem buildManualRoute_agrees {selected : List String} {reason : Option String}
    {overrode : Bool} {route : ManualConditionRoute}
    (h : buildManualRoute codec graph node selected reason overrode = .ok route) :
    RouteAgrees codec graph node route.outputText route.selectedTargetNodeIds
      route.skippedTargetNodeIds := by
  obtain ⟨selection, hsel, h⟩ := except_bind_ok h
  obtain rfl := Except.ok.inj h
  have hids := (validateTargetSelection_ok hsel).1
  refine routeAgrees_of_selection hsel fun t => ?_
  rw [← hids]
  exact conditionOutputSelectsTarget_payload codec _ _ _ _ _ _ _ _ _ _ t (by simp)

/-- Encoder and decoder agree on both ways to settle a Condition, and only a well-formed,
selected and highly confident decision settles it without a person. -/
theorem route_agreement (codec : RouterCodec) (graph : WorkflowGraph) (node : WorkflowNode) :
    (∀ (raw : String) (warning : Option String),
      let completion := evaluateRouterOutput codec raw graph node warning
      completion.shouldPause = false →
        RouteAgrees codec graph node completion.outputText completion.selectedTargetNodeIds
          completion.skippedTargetNodeIds ∧
        AutoRoutable codec raw warning completion.selectedTargetNodeIds) ∧
    (∀ (selected : List String) (reason : Option String) (overrode : Bool)
      (route : ManualConditionRoute),
      buildManualRoute codec graph node selected reason overrode = .ok route →
        RouteAgrees codec graph node route.outputText route.selectedTargetNodeIds
          route.skippedTargetNodeIds) :=
  ⟨fun _ _ h => evaluateRouterOutput_autoRoute h, fun _ _ _ _ h => buildManualRoute_agrees h⟩

end Route

theorem evaluateRouterOutput_selected {codec : RouterCodec} {raw : String} {graph : WorkflowGraph}
    {node : WorkflowNode} {warning : Option String} {decision : RouterDecision}
    {selection : ValidatedSelection} (hparse : parseRouterDecision codec.decision raw = .ok decision)
    (hvalid : validateRouterDecision graph node decision warning = .ok (decision, selection)) :
    (evaluateRouterOutput codec raw graph node warning).shouldPause = false := by
  simp only [evaluateRouterOutput, hparse, Except.bind, hvalid]
  rfl

section Example

def routeNode : WorkflowNode := ⟨"route", .condition, ⟨some .single, none⟩⟩

def routeGraph : WorkflowGraph where
  version := 2
  nodes := [routeNode, ⟨"ui", .agent, ⟨none, none⟩⟩, ⟨"api", .agent, ⟨none, none⟩⟩]
  edges := [⟨"0", "route", "ui"⟩, ⟨"1", "route", "api"⟩]
  routerExecutorConfig := none

def uiBlock : String :=
  "\x7b\"schema_version\":1,\"status\":\"selected\",\"selected_target_node_ids\":[\"ui\"]," ++
    "\"confidence\":\"high\"\x7d"

def uiDecision : RouterDecision := ⟨1, .selected, ["ui"], [], some .high, none, none⟩

/-- The decision reader on the one block of the example. -/
def uiCodec : RouterCodec :=
  ⟨JsonText.codec, fun text => if text = uiBlock then .ok uiDecision else .error "invalid"⟩

def uiOutput : String :=
  "Routing.\n<workflow_router_decision>\n" ++ uiBlock ++ "\n</workflow_router_decision>\n"

theorem uiOutput_block :
    decisionBlocks (uiOutput.toList.length + 1) uiOutput.toList = .ok [uiBlock] := by
  have hblock : uiBlock = String.ofList uiBlock.toList := String.ofList_toList.symm
  rw [hblock]
  unfold uiOutput uiBlock
  simp only [String.toList_append]
  repeat rw [String.toList_ofList]
  decide +kernel

theorem parse_uiOutput : parseRouterDecision uiCodec.decision uiOutput = .ok uiDecision := by
  have hread : uiCodec.decision uiBlock = .ok uiDecision := by simp only [uiCodec, if_true]
  unfold parseRouterDecision
  rw [uiOutput_block]
  simp only [bind, Except.bind]
  rw [hread]
  rfl

/-- One block routes by itself, and a person may still choose the other branch. -/
theorem route_agreement_ui :
    (∃ completion, evaluateRouterOutput uiCodec uiOutput routeGraph routeNode none = completion ∧
      completion.shouldPause = false ∧
      RouteAgrees uiCodec routeGraph routeNode completion.outputText
        completion.selectedTargetNodeIds completion.skippedTargetNodeIds) ∧
    ∃ route, buildManualRoute uiCodec routeGraph routeNode ["api"] none false = .ok route ∧
      RouteAgrees uiCodec routeGraph routeNode route.outputText ["api"] ["ui"] := by
  have hvalid : validateRouterDecision routeGraph routeNode uiDecision none =
      .ok (uiDecision, ⟨["ui"], ["api"]⟩) := rfl
  have hauto := evaluateRouterOutput_selected parse_uiOutput hvalid
  have hall := route_agreement uiCodec routeGraph routeNode
  exact ⟨⟨_, rfl, hauto, (hall.1 uiOutput none hauto).1⟩, _, rfl, hall.2 ["api"] none false _ rfl⟩

end Example

end VibeKanban.Router
