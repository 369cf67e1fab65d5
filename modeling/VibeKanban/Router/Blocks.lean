import VibeKanban.Router.Agreement

/-! The scan for decision blocks: it ends on every output, text around a block is of no account, and
more blocks than one or an open block are refused. -/
namespace VibeKanban.Router
open Lib

/-- A scan of a text to its end: without a start tag, at an open block, or after a whole block. -/
inductive Scanned : List Char → Except String (List String) → Prop where
  | finished {raw : List Char} : ¬ decisionStartTag <:+: raw → Scanned raw (.ok [])
  | unclosed {before rest : List Char} :
    ¬ decisionStartTag <:+: before → ¬ decisionEndTag <:+: rest →
      Scanned (before ++ decisionStartTag ++ rest)
        (.error "Router decision block is missing the closing tag")
  | block {before body rest : List Char} {result : Except String (List String)} :
    ¬ decisionStartTag <:+: before → ¬ decisionEndTag <:+: body → Scanned rest result →
      Scanned (before ++ decisionStartTag ++ (body ++ decisionEndTag ++ rest))
        (result.map fun blocks => String.ofList (trimChars body) :: blocks)

section Tags
variable {raw before body rest : List Char}

def startTail : List Char := "workflow_router_decision>".toList

def endTail : List Char := "/workflow_router_decision>".toList

theorem decisionStartTag_eq : decisionStartTag = '<' :: startTail := by decide

theorem decisionEndTag_eq : decisionEndTag = '<' :: endTail := by decide

theorem not_mem_startTail : '<' ∉ startTail := by decide

theorem not_mem_endTail : '<' ∉ endTail := by decide

theorem splitOnce_start (h : ¬ decisionStartTag <:+: before) :
    splitOnce decisionStartTag (before ++ decisionStartTag ++ rest) = some (before, rest) := by
  rw [decisionStartTag_eq] at h ⊢
  exact splitOnce_first not_mem_startTail h

theorem splitOnce_end (h : ¬ decisionEndTag <:+: body) :
    splitOnce decisionEndTag (body ++ decisionEndTag ++ rest) = some (body, rest) := by
  rw [decisionEndTag_eq] at h ⊢
  exact splitOnce_first not_mem_endTail h

/-- A text with a start tag has a first one. -/
theorem exists_start (h : decisionStartTag <:+: raw) : ∃ before rest,
    raw = before ++ decisionStartTag ++ rest ∧ ¬ decisionStartTag <:+: before := by
  cases hsplit : splitOnce decisionStartTag raw with
  | none => exact absurd h (splitOnce_none hsplit)
  | some found =>
    obtain ⟨before, rest⟩ := found
    exact ⟨before, rest, splitOnce_some hsplit, splitOnce_before (by decide) hsplit⟩

theorem exists_end (h : decisionEndTag <:+: raw) : ∃ body rest,
    raw = body ++ decisionEndTag ++ rest ∧ ¬ decisionEndTag <:+: body := by
  cases hsplit : splitOnce decisionEndTag raw with
  | none => exact absurd h (splitOnce_none hsplit)
  | some found =>
    obtain ⟨body, rest⟩ := found
    exact ⟨body, rest, splitOnce_some hsplit, splitOnce_before (by decide) hsplit⟩

end Tags

section Scan
variable {raw before body rest : List Char} {fuel : ℕ}

theorem decisionBlocks_finished (h : ¬ decisionStartTag <:+: raw) :
    decisionBlocks (fuel + 1) raw = .ok [] := by
  rw [decisionBlocks]
  cases hsplit : splitOnce decisionStartTag raw with
  | none => rfl
  | some found =>
    rw [splitOnce_some hsplit] at h
    exact absurd ⟨found.1, found.2, rfl⟩ h

theorem decisionBlocks_unclosed (hbefore : ¬ decisionStartTag <:+: before)
    (hrest : ¬ decisionEndTag <:+: rest) :
    decisionBlocks (fuel + 1) (before ++ decisionStartTag ++ rest) =
      .error "Router decision block is missing the closing tag" := by
  rw [decisionBlocks, splitOnce_start hbefore]
  cases hsplit : splitOnce decisionEndTag rest with
  | none => simp only [hsplit]
  | some found =>
    rw [splitOnce_some hsplit] at hrest
    exact absurd ⟨found.1, found.2, rfl⟩ hrest

theorem decisionBlocks_block (hbefore : ¬ decisionStartTag <:+: before)
    (hbody : ¬ decisionEndTag <:+: body) :
    decisionBlocks (fuel + 1) (before ++ decisionStartTag ++ (body ++ decisionEndTag ++ rest)) =
      (decisionBlocks fuel rest).map fun blocks => String.ofList (trimChars body) :: blocks := by
  rw [decisionBlocks, splitOnce_start hbefore]
  simp only [splitOnce_end hbody]
  cases decisionBlocks fuel rest <;> rfl

/-- The scan ends: each round goes on behind the tags it found. -/
theorem decisionBlocks_scanned (raw : List Char) (hfuel : raw.length < fuel) :
    Scanned raw (decisionBlocks fuel raw) := by
  induction fuel generalizing raw with
  | zero => exact absurd hfuel (Nat.not_lt_zero _)
  | succ fuel ih =>
    by_cases hstart : decisionStartTag <:+: raw
    · obtain ⟨before, rest, rfl, hbefore⟩ := exists_start hstart
      by_cases hend : decisionEndTag <:+: rest
      · obtain ⟨body, rest, rfl, hbody⟩ := exists_end hend
        rw [decisionBlocks_block hbefore hbody]
        apply Scanned.block hbefore hbody
        apply ih
        simp only [List.length_append] at hfuel
        have hpos : 0 < decisionStartTag.length := by decide
        omega
      · rw [decisionBlocks_unclosed hbefore hend]
        exact .unclosed hbefore hend
    · rw [decisionBlocks_finished hstart]
      exact .finished hstart

end Scan

section Refused
variable {raw : List Char} {result : Except String (List String)}

/-- Start tags do not overlap, and none stands before the first one. -/
theorem first_start {before rest first behind : List Char}
    (h : first ++ decisionStartTag ++ behind = before ++ decisionStartTag ++ rest)
    (hfirst : ¬ decisionStartTag <:+: first) :
    (first = before ∧ behind = rest) ∨ ∃ middle,
      before = first ++ decisionStartTag ++ middle ∧ behind = middle ++ decisionStartTag ++ rest := by
  rw [decisionStartTag_eq] at h hfirst ⊢
  rcases lt_trichotomy first.length before.length with hlt | heq | hgt
  · exact .inr (occurrence_apart not_mem_startTail h hlt)
  · obtain ⟨hsame, htail⟩ := occurrence_same h heq
    exact .inl ⟨hsame, List.append_cancel_left htail⟩
  · obtain ⟨middle, hmiddle, -⟩ := occurrence_apart not_mem_startTail h.symm hgt
    rw [hmiddle] at hfirst
    exact absurd ⟨before, middle, rfl⟩ hfirst

theorem first_end {before rest body behind : List Char}
    (h : body ++ decisionEndTag ++ behind = before ++ decisionEndTag ++ rest)
    (hbody : ¬ decisionEndTag <:+: body) :
    (body = before ∧ behind = rest) ∨ ∃ middle,
      before = body ++ decisionEndTag ++ middle ∧ behind = middle ++ decisionEndTag ++ rest := by
  rw [decisionEndTag_eq] at h hbody ⊢
  rcases lt_trichotomy body.length before.length with hlt | heq | hgt
  · exact .inr (occurrence_apart not_mem_endTail h hlt)
  · obtain ⟨hsame, htail⟩ := occurrence_same h heq
    exact .inl ⟨hsame, List.append_cancel_left htail⟩
  · obtain ⟨middle, hmiddle, -⟩ := occurrence_apart not_mem_endTail h.symm hgt
    rw [hmiddle] at hbody
    exact absurd ⟨before, middle, rfl⟩ hbody

/-- A start tag behind which no end tag stands is behind every end tag. -/
theorem open_behind {body behind middle rest : List Char}
    (h : body ++ decisionEndTag ++ behind = middle ++ decisionStartTag ++ rest)
    (hopen : ¬ decisionEndTag <:+: rest) :
    ∃ between, behind = between ++ decisionStartTag ++ rest := by
  rw [decisionStartTag_eq, decisionEndTag_eq] at h
  rcases lt_trichotomy body.length middle.length with hlt | heq | hgt
  · obtain ⟨between, -, hbehind⟩ := occurrence_apart not_mem_endTail h hlt
    rw [decisionStartTag_eq]
    exact ⟨between, hbehind⟩
  · obtain ⟨-, htail⟩ := occurrence_same h heq
    have hend : endTail = '/' :: startTail := by decide
    have hstart : startTail = 'w' :: "orkflow_router_decision>".toList := by decide
    rw [hend, hstart] at htail
    exact absurd (List.cons.inj htail).1 (by decide)
  · obtain ⟨between, -, hrest⟩ := occurrence_apart not_mem_startTail h.symm hgt
    rw [← decisionEndTag_eq] at hrest
    rw [hrest] at hopen
    exact absurd ⟨between, behind, rfl⟩ hopen

/-- A scan of a text with an open start tag fails. -/
theorem Scanned.of_open (h : Scanned raw result) {before rest : List Char}
    (hraw : raw = before ++ decisionStartTag ++ rest) (hopen : ¬ decisionEndTag <:+: rest) :
    ∃ error, result = .error error := by
  induction h generalizing before with
  | finished hnone => exact absurd ⟨before, rest, hraw.symm⟩ hnone
  | unclosed _ _ => exact ⟨_, rfl⟩
  | @block first body behind result hfirst hbody hscan ih =>
    rcases first_start hraw hfirst with ⟨-, hsame⟩ | ⟨middle, -, hmiddle⟩
    · rw [← hsame] at hopen
      exact absurd ⟨body, behind, rfl⟩ hopen
    · obtain ⟨between, hbehind⟩ := open_behind hmiddle hopen
      obtain ⟨error, herror⟩ := ih hbehind
      exact ⟨error, by rw [herror]; rfl⟩

theorem Scanned.of_start (h : Scanned raw result) {before rest : List Char}
    (hraw : raw = before ++ decisionStartTag ++ rest) : result ≠ .ok [] := by
  cases h with
  | finished hnone => exact absurd ⟨before, rest, hraw.symm⟩ hnone
  | unclosed _ _ => exact fun h => nomatch h
  | @block first body behind result hfirst hbody hscan =>
    cases result with
    | error error => exact fun h => nomatch h
    | ok blocks => exact fun h => nomatch h

/-- A scan of a text with two blocks fails or has more blocks than one. -/
theorem Scanned.of_two (h : Scanned raw result) {before body between rest : List Char}
    (hraw : raw = before ++ decisionStartTag ++
      (body ++ decisionEndTag ++ (between ++ decisionStartTag ++ rest))) :
    (∃ error, result = .error error) ∨ ∃ first second more, result = .ok (first :: second :: more) := by
  cases h with
  | finished hnone => exact absurd ⟨before, _, hraw.symm⟩ hnone
  | unclosed _ _ => exact .inl ⟨_, rfl⟩
  | @block first inner behind result hfirst hinner hscan =>
    -- the end tag of the first block found is the one given or an earlier one
    obtain ⟨lead, hlead⟩ : ∃ lead, inner ++ decisionEndTag ++ behind =
        lead ++ decisionEndTag ++ (between ++ decisionStartTag ++ rest) := by
      rcases first_start hraw hfirst with ⟨-, hsame⟩ | ⟨middle, -, hmiddle⟩
      · exact ⟨body, hsame⟩
      · refine ⟨middle ++ decisionStartTag ++ body, ?_⟩
        rw [hmiddle]
        simp only [List.append_assoc]
    obtain ⟨front, hbehind⟩ : ∃ front, behind = front ++ decisionStartTag ++ rest := by
      rcases first_end hlead hinner with ⟨-, hsame⟩ | ⟨middle, -, hmiddle⟩
      · exact ⟨between, hsame⟩
      · refine ⟨middle ++ decisionEndTag ++ between, ?_⟩
        rw [hmiddle]
        simp only [List.append_assoc]
    have hmore := hscan.of_start hbehind
    cases result with
    | error error => exact .inl ⟨error, rfl⟩
    | ok blocks =>
      cases blocks with
      | nil => exact absurd rfl hmore
      | cons second more => exact .inr ⟨_, second, more, rfl⟩

end Refused

section Parse
variable (decode : String → Except String RouterDecision)

/-- A decision block with its tags. -/
def decisionBlock (body : String) : String :=
  String.ofList (decisionStartTag ++ (body.toList ++ decisionEndTag))

/-- One block between texts without a start tag is the block found. -/
theorem decisionBlocks_one {before body after : String} (hbefore : ¬ decisionStartTag <:+: before.toList)
    (hbody : ¬ decisionEndTag <:+: body.toList) (hafter : ¬ decisionStartTag <:+: after.toList) :
    decisionBlocks ((before ++ decisionBlock body ++ after).toList.length + 1)
      (before ++ decisionBlock body ++ after).toList = .ok [String.ofList (trimChars body.toList)] := by
  have htext : (before ++ decisionBlock body ++ after).toList =
      before.toList ++ decisionStartTag ++ (body.toList ++ decisionEndTag ++ after.toList) := by
    simp [decisionBlock]
  have hlength : (before ++ decisionBlock body ++ after).toList.length ≠ 0 := by
    rw [htext]
    simp [decisionStartTag_eq]
  obtain ⟨fuel, hfuel⟩ := Nat.exists_eq_succ_of_ne_zero hlength
  rw [hfuel, htext, decisionBlocks_block hbefore hbody, decisionBlocks_finished hafter]
  rfl

theorem decisionBlocks_alone {body : String} (hbody : ¬ decisionEndTag <:+: body.toList) :
    decisionBlocks ((decisionBlock body).toList.length + 1) (decisionBlock body).toList =
      .ok [String.ofList (trimChars body.toList)] := by
  have hnone : ¬ decisionStartTag <:+: ("" : String).toList := by decide
  have hone := decisionBlocks_one hnone hbody hnone
  rwa [String.empty_append, String.append_empty] at hone

theorem parseRouterDecision_congr {raw raw' : String}
    (h : decisionBlocks (raw.toList.length + 1) raw.toList =
      decisionBlocks (raw'.toList.length + 1) raw'.toList) :
    parseRouterDecision decode raw = parseRouterDecision decode raw' := by
  unfold parseRouterDecision
  rw [h]

theorem parseRouterDecision_refused {raw : String} {result : Except String (List String)}
    (h : decisionBlocks (raw.toList.length + 1) raw.toList = result)
    (hresult : (∃ error, result = .error error) ∨
      ∃ first second more, result = .ok (first :: second :: more)) :
    ∃ error, parseRouterDecision decode raw = .error error := by
  unfold parseRouterDecision
  rw [h]
  rcases hresult with ⟨error, rfl⟩ | ⟨first, second, more, rfl⟩
  · exact ⟨error, rfl⟩
  · exact ⟨_, rfl⟩

/-- The scan ends on every output; the text around a block is of no account; two blocks and an open
one are refused. -/
theorem decision_blocks :
    (∀ raw : String, Scanned raw.toList (decisionBlocks (raw.toList.length + 1) raw.toList)) ∧
      (∀ before body after : String, ¬ decisionStartTag <:+: before.toList →
        ¬ decisionEndTag <:+: body.toList → ¬ decisionStartTag <:+: after.toList →
          parseRouterDecision decode (before ++ decisionBlock body ++ after) =
            parseRouterDecision decode (decisionBlock body)) ∧
      (∀ before body between body' after : String, ∃ error,
        parseRouterDecision decode (before ++ decisionBlock body ++ between ++ decisionBlock body' ++
          after) = .error error) ∧
      ∀ before rest : String, ¬ decisionEndTag <:+: rest.toList → ∃ error,
        parseRouterDecision decode (before ++ String.ofList decisionStartTag ++ rest) =
          .error error := by
  refine ⟨fun raw => decisionBlocks_scanned raw.toList (Nat.lt_succ_self _), ?_, ?_, ?_⟩
  · intro before body after hbefore hbody hafter
    apply parseRouterDecision_congr
    rw [decisionBlocks_one hbefore hbody hafter, decisionBlocks_alone hbody]
  · intro before body between body' after
    apply parseRouterDecision_refused decode rfl
    have htext : (before ++ decisionBlock body ++ between ++ decisionBlock body' ++ after).toList =
        before.toList ++ decisionStartTag ++ (body.toList ++ decisionEndTag ++
          (between.toList ++ decisionStartTag ++
            (body'.toList ++ decisionEndTag ++ after.toList))) := by
      simp [decisionBlock]
    exact (decisionBlocks_scanned _ (Nat.lt_succ_self _)).of_two htext
  · intro before rest hrest
    apply parseRouterDecision_refused decode rfl
    apply Or.inl
    have htext : (before ++ String.ofList decisionStartTag ++ rest).toList =
        before.toList ++ decisionStartTag ++ rest.toList := by
      simp
    exact (decisionBlocks_scanned _ (Nat.lt_succ_self _)).of_open htext hrest

end Parse

theorem uiBlock_tagless : '<' ∉ uiBlock.toList := by
  unfold uiBlock
  rw [String.toList_append]
  repeat rw [String.toList_ofList]
  decide +kernel

theorem uiBlock_trimmed : trimChars ('\n' :: uiBlock.toList ++ ['\n']) = uiBlock.toList := by
  unfold uiBlock
  rw [String.toList_append]
  repeat rw [String.toList_ofList]
  decide +kernel

/-- The decision on lines of its own between its tags. -/
def uiBody : String := String.ofList ('\n' :: uiBlock.toList ++ ['\n'])

theorem uiBody_open : ¬ decisionEndTag <:+: uiBody.toList := by
  intro h
  have hmem : '<' ∈ uiBody.toList := h.subset (by rw [decisionEndTag_eq]; exact List.mem_cons_self)
  simp [uiBody, uiBlock_tagless] at hmem

theorem parse_uiBody :
    parseRouterDecision uiCodec.decision (decisionBlock uiBody) = .ok uiDecision := by
  have hread : uiCodec.decision uiBlock = .ok uiDecision := by simp only [uiCodec, if_true]
  have hblocks := decisionBlocks_alone uiBody_open
  rw [show uiBody.toList = '\n' :: uiBlock.toList ++ ['\n'] from String.toList_ofList, uiBlock_trimmed,
    String.ofList_toList] at hblocks
  unfold parseRouterDecision
  rw [hblocks]
  simp only [bind, Except.bind]
  rw [hread]
  rfl

/-- A decision is read from between two remarks, and not when it is given twice. -/
theorem decision_blocks_ui :
    parseRouterDecision uiCodec.decision ("so: " ++ decisionBlock uiBody ++ " done") =
        .ok uiDecision ∧
      ∃ error, parseRouterDecision uiCodec.decision
        ("so: " ++ decisionBlock uiBody ++ " or " ++ decisionBlock uiBody ++ " done") =
          .error error := by
  obtain ⟨-, halone, htwice, -⟩ := decision_blocks uiCodec.decision
  constructor
  · rw [halone "so: " uiBody " done" (by decide) uiBody_open (by decide)]
    exact parse_uiBody
  · exact htwice "so: " uiBody " or " uiBody " done"

end VibeKanban.Router
