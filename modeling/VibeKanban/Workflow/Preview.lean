import VibeKanban.Workflow.Template
import VibeKanban.Editor.Validation

/-! What the editor previews for a Transform node beside what the runtime computes. JavaScript reads
replacement patterns in the text that is put in. -/
namespace VibeKanban.Workflow
open Lib Editor

inductive TransformMode where
  | template | regexExtract | truncate
  deriving DecidableEq, Repr

structure TransformData where
  mode : Option TransformMode
  template : Option String
  regex : Option String
  maxChars : Option ℕ
  deriving DecidableEq, Repr

/-- The runtime; `extract` is the regular expression engine. -/
def applyTransform (extract : String → String → Except String String) (data : TransformData)
    (input : String) : Except String String :=
  match data.mode with
  | none => .error "transform mode is required"
  | some .template => applyTemplate data.template input
  | some .regexExtract =>
    match data.regex with
    | none => .error "regex_extract transform requires regex"
    | some pattern => extract pattern input
  | some .truncate =>
    match data.maxChars with
    | none => .error "truncate transform requires max_chars"
    | some maxChars => .ok (String.ofList (input.toList.take maxChars))

/-- JavaScript's GetSubstitution for a match without captures. -/
def getSubstitution (before matched after : List Char) : List Char → List Char
  | '$' :: '$' :: rest => '$' :: getSubstitution before matched after rest
  | '$' :: '&' :: rest => matched ++ getSubstitution before matched after rest
  | '$' :: '`' :: rest => before ++ getSubstitution before matched after rest
  | '$' :: '\'' :: rest => after ++ getSubstitution before matched after rest
  | c :: rest => c :: getSubstitution before matched after rest
  | [] => []

/-- `String.prototype.replaceAll` with strings: `skip` characters of a match are left, and `before`
is the text up to here. -/
def jsReplaceFrom (pattern value : List Char) : ℕ → List Char → List Char → List Char
  | _, _, [] => []
  | skip + 1, before, c :: rest => jsReplaceFrom pattern value skip (before ++ [c]) rest
  | 0, before, c :: rest =>
    if pattern.isPrefixOf (c :: rest) then
      getSubstitution before pattern ((c :: rest).drop pattern.length) value ++
        jsReplaceFrom pattern value (pattern.length - 1) (before ++ [c]) rest
    else c :: jsReplaceFrom pattern value 0 (before ++ [c]) rest

def jsReplaceAll (text pattern value : String) : String :=
  String.ofList (jsReplaceFrom pattern.toList value.toList 0 [] text.toList)

/-- The editor's preview. -/
def applyWorkflowTransform (extract : String → String → Except String String)
    (data : TransformData) (input : String) : Except String String :=
  match data.mode.getD .template with
  | .template =>
    match data.template with
    | none => .error "Template text is required."
    | some template =>
      if isJsBlank template then .error "Template text is required."
      else .ok (jsReplaceAll (jsReplaceAll template inputPlaceholder input) upstreamPlaceholder input)
  | .regexExtract =>
    match data.regex with
    | none => .error "Regular expression is required."
    | some pattern =>
      if isJsBlank pattern then .error "Regular expression is required." else extract pattern input
  | .truncate =>
    match data.maxChars with
    | none | some 0 => .error "Maximum characters must be greater than zero."
    | some maxChars => .ok (String.ofList (input.toList.take maxChars))

/-- The issues of a Transform node in the editor's validation. -/
def transformIssues (data : TransformData) : List String :=
  match data.mode.getD .template with
  | .template =>
    if data.template.all isJsBlank then ["Add the transform template."] else []
  | .regexExtract =>
    if data.regex.all isJsBlank then ["Add the extraction pattern."] else []
  | .truncate =>
    if data.maxChars.all (· = 0) then ["Maximum characters must be greater than zero."] else []

/-- The text has no replacement pattern of JavaScript. -/
def isPlain : List Char → Bool
  | '$' :: '$' :: _ => false
  | '$' :: '&' :: _ => false
  | '$' :: '`' :: _ => false
  | '$' :: '\'' :: _ => false
  | _ :: rest => isPlain rest
  | [] => true

/-- Both give the same text. -/
def Agrees (preview extract : String → String → Except String String) (data : TransformData)
    (input : String) : Prop :=
  ∃ output, applyWorkflowTransform preview data input = .ok output ∧
    applyTransform extract data input = .ok output

section Substitution
variable {before matched after value pattern text : List Char}

theorem isPlain_cons {c : Char} {rest : List Char} (h : isPlain (c :: rest) = true) :
    isPlain rest = true := by
  unfold isPlain at h
  split at h
  · exact absurd h Bool.false_ne_true
  · exact absurd h Bool.false_ne_true
  · exact absurd h Bool.false_ne_true
  · exact absurd h Bool.false_ne_true
  · rename_i heq
    obtain ⟨-, rfl⟩ := List.cons.inj heq
    exact h
  · rename_i heq
    exact absurd heq (List.cons_ne_nil c rest)

theorem getSubstitution_plain (h : isPlain value = true) :
    getSubstitution before matched after value = value := by
  fun_induction getSubstitution before matched after value with
  | case1 rest ih => simp [isPlain] at h
  | case2 rest ih => simp [isPlain] at h
  | case3 rest ih => simp [isPlain] at h
  | case4 rest ih => simp [isPlain] at h
  | case5 c rest h₁ h₂ h₃ h₄ ih => rw [ih (isPlain_cons h)]
  | case6 => rfl

/-- Braces of the value stay. -/
theorem getSubstitution_count :
    value.count '\x7b' ≤ (getSubstitution before matched after value).count '\x7b' := by
  fun_induction getSubstitution before matched after value with
  | case1 rest ih => simpa [List.count_cons] using ih
  | case2 rest ih =>
    simp only [List.count_append, List.count_cons]
    simp
    omega
  | case3 rest ih =>
    simp only [List.count_append, List.count_cons]
    simp
    omega
  | case4 rest ih =>
    simp only [List.count_append, List.count_cons]
    simp
    omega
  | case5 c rest h₁ h₂ h₃ h₄ ih =>
    simp only [List.count_cons]
    omega
  | case6 => exact le_rfl

/-- With nothing around the match, patterns shorten the text or put in braces. -/
theorem getSubstitution_alone (hmatched : 0 < matched.count '\x7b') (value : List Char) :
    value.count '\x7b' < (getSubstitution [] matched [] value).count '\x7b' ∨
      (getSubstitution [] matched [] value).length ≤ value.length ∧
        (isPlain value = false → (getSubstitution [] matched [] value).length < value.length) := by
  fun_induction getSubstitution [] matched [] value with
  | case1 rest ih =>
    rcases ih with hmore | ⟨hless, -⟩
    · left
      simpa [List.count_cons] using hmore
    · right
      simp only [List.length_cons]
      exact ⟨by omega, fun _ => by omega⟩
  | case2 rest ih =>
    left
    have hkept := @getSubstitution_count [] matched [] rest
    simp only [List.count_append, List.count_cons]
    simp
    omega
  | case3 rest ih =>
    rcases ih with hmore | ⟨hless, -⟩
    · left
      simpa [List.count_cons] using hmore
    · right
      simp only [List.length_cons, List.nil_append]
      exact ⟨by omega, fun _ => by omega⟩
  | case4 rest ih =>
    rcases ih with hmore | ⟨hless, -⟩
    · left
      simpa [List.count_cons] using hmore
    · right
      simp only [List.length_cons, List.nil_append]
      exact ⟨by omega, fun _ => by omega⟩
  | case5 c rest h₁ h₂ h₃ h₄ ih =>
    rcases ih with hmore | ⟨hless, hstrict⟩
    · left
      simp only [List.count_cons]
      omega
    · right
      simp only [List.length_cons]
      refine ⟨by omega, fun hnot => ?_⟩
      have hrest : isPlain rest = false := by
        rwa [isPlain] at hnot
        · exact h₁
        · exact h₂
        · exact h₃
        · exact h₄
      have hshort := hstrict hrest
      omega
  | case6 => exact .inr ⟨le_rfl, fun hnot => absurd hnot (by decide)⟩

/-- A pattern that stands alone gives way to the text itself exactly when that is plain. -/
theorem getSubstitution_alone_iff (hmatched : 0 < matched.count '\x7b') :
    getSubstitution [] matched [] value = value ↔ isPlain value = true := by
  constructor
  · intro hsame
    by_contra hnot
    have hcount := congrArg (List.count '\x7b') hsame
    have hlength := congrArg List.length hsame
    rcases getSubstitution_alone hmatched value with hmore | ⟨-, hstrict⟩
    · omega
    · have hshort := hstrict (Bool.eq_false_iff.mpr hnot)
      omega
  · exact getSubstitution_plain

theorem jsReplaceFrom_plain (hvalue : isPlain value = true) (skip : ℕ) (before : List Char) :
    jsReplaceFrom pattern value skip before text = substituteFrom [(pattern, value)] skip text := by
  fun_induction jsReplaceFrom pattern value skip before text with
  | case1 => rw [substituteFrom]
  | case2 before skip c rest ih => rw [substituteFrom, ih]
  | case3 before c rest hprefix ih =>
    have hfind : ([(pattern, value)].find? fun sub => sub.1.isPrefixOf (c :: rest)) =
        some (pattern, value) := List.find?_cons_of_pos hprefix
    rw [substituteFrom, hfind, getSubstitution_plain hvalue, ih]
  | case4 before c rest hprefix ih =>
    have hfind : ([(pattern, value)].find? fun sub => sub.1.isPrefixOf (c :: rest)) = none :=
      List.find?_cons_of_neg hprefix
    rw [substituteFrom, hfind, ih]

theorem jsReplaceFrom_free (hfree : ¬ pattern <:+: text) (before : List Char) :
    jsReplaceFrom pattern value 0 before text = text := by
  induction text generalizing before with
  | nil => rw [jsReplaceFrom]
  | cons c rest ih =>
    have hnot : ¬ pattern.isPrefixOf (c :: rest) = true :=
      fun hprefix => hfree (List.isPrefixOf_iff_prefix.mp hprefix).isInfix
    have hrest : ¬ pattern <:+: rest :=
      fun hwithin => hfree (hwithin.trans (List.suffix_cons c rest).isInfix)
    rw [jsReplaceFrom, if_neg hnot, ih hrest]

theorem jsReplaceFrom_skip (before : List Char) :
    jsReplaceFrom pattern value text.length before text = [] := by
  induction text generalizing before with
  | nil => rw [List.length_nil, jsReplaceFrom]
  | cons c rest ih => rw [List.length_cons, jsReplaceFrom, ih]

/-- The pattern itself. -/
theorem jsReplaceFrom_self (hne : pattern ≠ []) :
    jsReplaceFrom pattern value 0 [] pattern = getSubstitution [] pattern [] value := by
  cases pattern with
  | nil => exact absurd rfl hne
  | cons c rest =>
    have hprefix : (c :: rest).isPrefixOf (c :: rest) = true :=
      List.isPrefixOf_iff_prefix.mpr List.prefix_rfl
    rw [jsReplaceFrom, if_pos hprefix, List.drop_length, List.length_cons, Nat.add_sub_cancel,
      jsReplaceFrom_skip, List.append_nil]

end Substitution

section Preview
variable {preview extract : String → String → Except String String} {template input : String}

theorem jsReplaceAll_plain {text pattern : String} (hplain : isPlain input.toList = true) :
    jsReplaceAll text pattern input = replace text pattern input := by
  rw [jsReplaceAll, jsReplaceFrom_plain hplain, replace, replaceAll, substitute]

theorem jsReplaceAll_free {text pattern : String} (hfree : ¬ pattern.toList <:+: text.toList) :
    jsReplaceAll text pattern input = text := by
  rw [jsReplaceAll, jsReplaceFrom_free hfree, String.ofList_toList]

theorem replace_free {text pattern : String} (hfree : ¬ pattern.toList <:+: text.toList) :
    replace text pattern input = text := by
  have hsame : replaceAll pattern.toList input.toList text.toList = text.toList :=
    substitute_free (by simpa using hfree)
  rw [replace, hsame, String.ofList_toList]

/-- A template that the editor accepts agrees when the replacements do. -/
theorem agrees_template_iff {data : TransformData} (hmode : data.mode = some .template)
    (htemplate : data.template = some template) (hblank : isJsBlank template = false) :
    Agrees preview extract data input ↔
      jsReplaceAll (jsReplaceAll template inputPlaceholder input) upstreamPlaceholder input =
        replace (replace template inputPlaceholder input) upstreamPlaceholder input := by
  simp [Agrees, applyWorkflowTransform, applyTransform, applyTemplate, hmode, htemplate, hblank,
    eq_comm]

theorem accepted_template {data : TransformData} (hmode : data.mode = some .template)
    (haccepted : transformIssues data = []) :
    ∃ template, data.template = some template ∧ isJsBlank template = false := by
  unfold transformIssues at haccepted
  rw [hmode] at haccepted
  cases htemplate : data.template with
  | none => simp [htemplate] at haccepted
  | some template => exact ⟨template, rfl, by simpa [htemplate] using haccepted⟩

theorem agrees_truncate {data : TransformData} (hmode : data.mode = some .truncate)
    (haccepted : transformIssues data = []) : Agrees preview extract data input := by
  unfold transformIssues at haccepted
  rw [hmode] at haccepted
  cases hmax : data.maxChars with
  | none => simp [hmax] at haccepted
  | some maxChars =>
    cases maxChars with
    | zero => simp [hmax] at haccepted
    | succ maxChars => simp [Agrees, applyWorkflowTransform, applyTransform, hmode, hmax]

/-- The template that is one placeholder. -/
def upstreamOnly : TransformData := ⟨some .template, some upstreamPlaceholder, none, none⟩

theorem agrees_upstreamOnly_iff :
    Agrees preview extract upstreamOnly input ↔ isPlain input.toList = true := by
  have hfree : ¬ inputPlaceholder.toList <:+: upstreamPlaceholder.toList := by decide
  have hne : upstreamPlaceholder.toList ≠ [] := by decide
  have hbraces : 0 < upstreamPlaceholder.toList.count '\x7b' := by decide
  have hrust : replace upstreamPlaceholder upstreamPlaceholder input = input := by
    have hpattern : replaceAll upstreamPlaceholder.toList input.toList upstreamPlaceholder.toList =
        input.toList := by
      have hfound := @substitute_pattern Char _ [(upstreamPlaceholder.toList, input.toList)] []
        upstreamPlaceholder.toList input.toList hne (by simp)
      simpa only [replaceAll, substitute, substituteFrom, List.append_nil] using hfound
    rw [replace, hpattern, String.ofList_toList]
  rw [agrees_template_iff rfl rfl (by decide), jsReplaceAll_free hfree, replace_free hfree, hrust,
    jsReplaceAll, jsReplaceFrom_self hne, ← getSubstitution_alone_iff hbraces, ← String.toList_inj,
    String.toList_ofList]

/-- For a text, the preview of every template and truncation that the editor accepts is what the
runtime computes exactly when JavaScript finds no replacement pattern in the text. It always is for a
truncation and for a template without placeholders, and never when the mode is left out, which the
editor reads as a template and the runtime refuses. -/
theorem preview_agrees_iff (preview extract : String → String → Except String String)
    (input : String) :
    ((∀ data, transformIssues data = [] →
          data.mode = some .template ∨ data.mode = some .truncate →
          Agrees preview extract data input) ↔ isPlain input.toList = true) ∧
      (∀ data, transformIssues data = [] → data.mode = some .truncate →
        Agrees preview extract data input) ∧
      (∀ data template, transformIssues data = [] → data.mode = some .template →
        data.template = some template → ¬ inputPlaceholder.toList <:+: template.toList →
        ¬ upstreamPlaceholder.toList <:+: template.toList → Agrees preview extract data input) ∧
      ∀ data, data.mode = none → ¬ Agrees preview extract data input := by
  refine ⟨⟨fun h => ?_, fun hplain data haccepted hmode => ?_⟩, ?_, ?_, ?_⟩
  · exact agrees_upstreamOnly_iff.mp (h upstreamOnly (by decide) (.inl rfl))
  · rcases hmode with hmode | hmode
    · obtain ⟨template, htemplate, hblank⟩ := accepted_template hmode haccepted
      rw [agrees_template_iff hmode htemplate hblank, jsReplaceAll_plain hplain,
        jsReplaceAll_plain hplain]
    · exact agrees_truncate hmode haccepted
  · intro data haccepted hmode
    exact agrees_truncate hmode haccepted
  · intro data template haccepted hmode htemplate hinput hupstream
    obtain ⟨found, hfound, hblank⟩ := accepted_template hmode haccepted
    obtain rfl : template = found := Option.some.inj (htemplate.symm.trans hfound)
    rw [agrees_template_iff hmode htemplate hblank, jsReplaceAll_free hinput, replace_free hinput,
      jsReplaceAll_free hupstream, replace_free hupstream]
  · rintro data hmode ⟨output, -, hrun⟩
    unfold applyTransform at hrun
    rw [hmode] at hrun
    simp at hrun

theorem plain_text_agrees : Agrees (fun _ => .ok) (fun _ => .ok)
    ⟨some .template, some "Review: \x7b\x7binput\x7d\x7d", none, none⟩ "costs $5" :=
  (preview_agrees_iff (fun _ => .ok) (fun _ => .ok) "costs $5").1.mpr (by decide) _ (by decide)
    (.inl rfl)

/-- A text with two dollar signs loses one in the preview. -/
theorem dollar_lost : ¬ ∀ preview extract data input, transformIssues data = [] →
    data.mode = some .template ∨ data.mode = some .truncate →
      Agrees preview extract data input := by
  intro h
  obtain ⟨output, hpreview, hrun⟩ :=
    h (fun _ => .ok) (fun _ => .ok) upstreamOnly "$$" (by decide) (.inl rfl)
  rw [← hrun] at hpreview
  revert hpreview
  decide

end Preview

end VibeKanban.Workflow
