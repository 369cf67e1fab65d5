import VibeKanban.Lib.Substitute
import VibeKanban.Workflow.Handlers

/-! The texts that stand for placeholders of a template, and when putting them in one after another is
putting them in at once. -/
namespace VibeKanban.Workflow
open Lib

def inputPlaceholder : String := "\x7b\x7binput\x7d\x7d"

def runInputPlaceholder : String := "\x7b\x7brun_input\x7d\x7d"

def upstreamPlaceholder : String := "\x7b\x7bupstream\x7d\x7d"

/-- `str::replace`. -/
def replace (text pattern value : String) : String :=
  String.ofList (replaceAll pattern.toList value.toList text.toList)

/-- The template of a Transform node. -/
def applyTemplate (template : Option String) (input : String) : Except String String :=
  match template with
  | none => .error "template transform requires template text"
  | some template =>
    .ok (replace (replace template inputPlaceholder input) upstreamPlaceholder input)

/-- The prompt of an Agent, a Condition or an Arena. -/
def renderPromptTemplate (template : String) (context : NodeHandlerContext) : String :=
  let upstream := context.upstreamText
  replace (replace (replace template inputPlaceholder context.runInputText)
    runInputPlaceholder context.runInputText) upstreamPlaceholder upstream

def characters (sub : String × String) : List Char × List Char := (sub.1.toList, sub.2.toList)

/-- Every placeholder of the template gives way to its value, and no value is read for placeholders. -/
def replaceEach (subs : List (String × String)) (template : String) : String :=
  String.ofList (substitute (subs.map characters) template.toList)

/-- The result of replacing at once, in whatever order the placeholders are given. -/
def Simultaneous (subs : List (String × String)) (template result : String) : Prop :=
  ∀ order : List (String × String), subs.Perm order → result = replaceEach order template

/-- The values make no new placeholder of a text between two of them. -/
def Intact (placeholder : String) (subs : List (String × String)) (template : String) : Prop :=
  ∀ piece ∈ pieces placeholder.toList template.toList,
    ¬ placeholder.toList <:+: substitute (subs.map characters) piece

/-- The placeholders and values of a Transform node. -/
def templateValues (input : String) : List (String × String) :=
  [(inputPlaceholder, input), (upstreamPlaceholder, input)]

/-- The placeholders and values of a prompt. -/
def promptValues (context : NodeHandlerContext) : List (String × String) :=
  [(inputPlaceholder, context.runInputText), (runInputPlaceholder, context.runInputText),
    (upstreamPlaceholder, context.upstreamText)]

theorem simultaneous_iff {subs : List (String × String)}
    (hapart : ∀ a ∈ subs, ∀ b ∈ subs, a.1.toList <+: b.1.toList → a = b) {template result : String} :
    Simultaneous subs template result ↔ result = replaceEach subs template := by
  constructor
  · intro h
    exact h subs (List.Perm.refl subs)
  · intro h order hperm
    have hcharacters : ∀ a ∈ subs.map characters, ∀ b ∈ subs.map characters, a.1 <+: b.1 → a = b := by
      intro a ha b hb hprefix
      obtain ⟨x, hx, rfl⟩ := List.mem_map.mp ha
      obtain ⟨y, hy, rfl⟩ := List.mem_map.mp hb
      rw [hapart x hx y hy hprefix]
    rw [h, replaceEach, replaceEach, substitute_perm (hperm.map characters) hcharacters]

theorem templateValues_apart (input : String) : ∀ a ∈ templateValues input, ∀ b ∈ templateValues input,
    a.1.toList <+: b.1.toList → a = b := by
  have hforward : ¬ inputPlaceholder.toList <+: upstreamPlaceholder.toList := by decide
  have hback : ¬ upstreamPlaceholder.toList <+: inputPlaceholder.toList := by decide
  simp [templateValues, hforward, hback]

theorem promptValues_apart (context : NodeHandlerContext) : ∀ a ∈ promptValues context,
    ∀ b ∈ promptValues context, a.1.toList <+: b.1.toList → a = b := by
  have h₁ : ¬ inputPlaceholder.toList <+: upstreamPlaceholder.toList := by decide
  have h₂ : ¬ upstreamPlaceholder.toList <+: inputPlaceholder.toList := by decide
  have h₃ : ¬ inputPlaceholder.toList <+: runInputPlaceholder.toList := by decide
  have h₄ : ¬ runInputPlaceholder.toList <+: inputPlaceholder.toList := by decide
  have h₅ : ¬ upstreamPlaceholder.toList <+: runInputPlaceholder.toList := by decide
  have h₆ : ¬ runInputPlaceholder.toList <+: upstreamPlaceholder.toList := by decide
  simp [promptValues, h₁, h₂, h₃, h₄, h₅, h₆]

/-- One more placeholder after the others. -/
theorem replace_last {subs : List (String × String)} {placeholder template text value : String}
    (hne : placeholder.toList ≠ []) (hself : Clear placeholder.toList placeholder.toList)
    (hclear : ∀ sub ∈ subs, Clear sub.1.toList placeholder.toList)
    (hforeign : ∀ sub ∈ subs, Foreign sub.1.toList placeholder.toList)
    (htext : text = replaceEach subs template) :
    replace text placeholder value = replaceEach (subs ++ [(placeholder, value)]) template ↔
      Intact placeholder subs template ∨ value = placeholder := by
  have hkey := @replaceAll_substitute_iff Char _ placeholder.toList value.toList
    (subs.map characters) hne hself (List.forall_mem_map.mpr hclear)
    (List.forall_mem_map.mpr hforeign) template.toList
  rw [htext, replace, replaceEach, replaceEach, String.toList_ofList, String.ofList_inj,
    List.map_append, List.map_singleton, characters, hkey, Intact, String.toList_inj]

theorem replace_upstream {subs : List (String × String)} {template text value : String}
    (hsubs : ∀ sub ∈ subs, sub.1 = inputPlaceholder ∨ sub.1 = runInputPlaceholder)
    (htext : text = replaceEach subs template) :
    replace text upstreamPlaceholder value =
        replaceEach (subs ++ [(upstreamPlaceholder, value)]) template ↔
      Intact upstreamPlaceholder subs template ∨ value = upstreamPlaceholder := by
  apply replace_last (by decide) (by decide) ?_ ?_ htext
  · intro sub hsub
    rcases hsubs sub hsub with h | h
    · rw [h]
      decide
    · rw [h]
      decide
  · intro sub hsub
    rcases hsubs sub hsub with h | h
    · rw [h]
      decide
    · rw [h]
      decide

/-- A template is filled at once exactly when the input makes no new placeholder between two upstream
placeholders of it; a prompt, where the run input has made no new one of its own, exactly when it makes
no new upstream placeholder. -/
theorem substitution_simultaneous (template : String) :
    (∀ input, (∃ text, applyTemplate (some template) input = .ok text ∧
        Simultaneous (templateValues input) template text) ↔
      Intact upstreamPlaceholder [(inputPlaceholder, input)] template ∨ input = upstreamPlaceholder) ∧
    ∀ context : NodeHandlerContext,
      Intact runInputPlaceholder [(inputPlaceholder, context.runInputText)] template ∨
          context.runInputText = runInputPlaceholder →
        (Simultaneous (promptValues context) template (renderPromptTemplate template context) ↔
          Intact upstreamPlaceholder [(inputPlaceholder, context.runInputText),
              (runInputPlaceholder, context.runInputText)] template ∨
            context.upstreamText = upstreamPlaceholder) := by
  constructor
  · intro input
    rw [← @replace_upstream [(inputPlaceholder, input)] template
      (replace template inputPlaceholder input) input (by simp) rfl]
    constructor
    · rintro ⟨text, htext, hsame⟩
      rw [applyTemplate, Except.ok.injEq] at htext
      rw [htext]
      exact (simultaneous_iff (templateValues_apart input)).mp hsame
    · intro hsame
      exact ⟨_, rfl, (simultaneous_iff (templateValues_apart input)).mpr hsame⟩
  · intro context hrun
    have hfirst : replace (replace template inputPlaceholder context.runInputText)
        runInputPlaceholder context.runInputText =
        replaceEach [(inputPlaceholder, context.runInputText),
          (runInputPlaceholder, context.runInputText)] template :=
      (@replace_last [(inputPlaceholder, context.runInputText)] runInputPlaceholder template _ _
        (by decide) (by decide) (by simp; decide) (by simp; decide) rfl).mpr hrun
    rw [simultaneous_iff (promptValues_apart context),
      ← @replace_upstream _ template _ context.upstreamText (by simp) hfirst]
    exact Iff.rfl

theorem prompt_simultaneous :
    Simultaneous (promptValues ⟨"run", ["done"]⟩) "Review \x7b\x7bupstream\x7d\x7d"
      (renderPromptTemplate "Review \x7b\x7bupstream\x7d\x7d" ⟨"run", ["done"]⟩) :=
  ((substitution_simultaneous _).2 ⟨"run", ["done"]⟩ (.inl (by unfold Intact; decide))).mpr
    (.inl (by unfold Intact; decide))

/-- An input that quotes the upstream placeholder is read for it. -/
theorem input_read_again :
    ¬ ∀ template input, ∃ text, applyTemplate (some template) input = .ok text ∧
      Simultaneous (templateValues input) template text := by
  intro h
  obtain ⟨text, htext, hsame⟩ := h "\x7b\x7binput\x7d\x7d" "fill in \x7b\x7bupstream\x7d\x7d"
  have hresult := hsame _ (List.Perm.refl _)
  rw [applyTemplate, Except.ok.injEq, hresult] at htext
  revert htext
  decide

end VibeKanban.Workflow
