import VibeKanban.Lib.JsonText
import VibeKanban.Lib.Substitute
import VibeKanban.Lib.Text

/-! `executors::agent_commands::markdown`: command files with YAML front matter. The front matter is
read by a YAML parser and edited as lines of text. -/
namespace VibeKanban.AgentCommands
open Lib Lib.JsonText

/-- A key or a value of a YAML mapping: a string, or anything else. -/
inductive Value (σ : Type) where
  | string (text : String)
  | other (value : σ)
deriving DecidableEq

/-- A YAML document: a mapping with its fields in order, or anything else. -/
inductive Document (σ : Type) where
  | mapping (fields : List (Value σ × Value σ))
  | other

/-- `serde_yaml::from_str`, with the text of its error. -/
abbrev Yaml (σ : Type) := List Char → Except String (Document σ)

inductive AgentCommandError where
  | invalidConfiguration (message : String)
deriving DecidableEq

inductive LineEnding where
  | lf
  | crlf
deriving DecidableEq

def LineEnding.text : LineEnding → List Char
  | .lf => ['\n']
  | .crlf => ['\r', '\n']

structure MarkdownCommand where
  frontmatter : Option (List Char)
  body : List Char
  lineEnding : LineEnding
deriving DecidableEq

/-- The line around the front matter. -/
def marker : List Char := ['-', '-', '-']

/-- The line ending of the marker that a file starts with. -/
def opening (content : List Char) : Option LineEnding :=
  if (marker ++ LineEnding.crlf.text).isPrefixOf content then some .crlf
  else if (marker ++ LineEnding.lf.text).isPrefixOf content then some .lf
  else none

/-- The rest of a file behind its opening marker, divided at the closing one. -/
def splitRemainder (lineEnding : LineEnding) (remainder : List Char) :
    Except AgentCommandError (List Char × List Char) :=
  let surroundedMarker := lineEnding.text ++ (marker ++ lineEnding.text)
  let terminalMarker := lineEnding.text ++ marker
  if (marker ++ lineEnding.text).isPrefixOf remainder then
    .ok ([], remainder.drop (marker ++ lineEnding.text).length)
  else if remainder = marker then .ok ([], [])
  else
    match splitOnce surroundedMarker remainder with
    | some parts => .ok parts
    | none =>
      if terminalMarker.isSuffixOf remainder then
        .ok (remainder.take (remainder.length - terminalMarker.length), [])
      else .error (.invalidConfiguration "unterminated YAML frontmatter")

def splitFrontmatter (content : List Char) :
    Except AgentCommandError (Option (List Char × List Char × LineEnding)) :=
  match opening content with
  | none => .ok none
  | some lineEnding =>
    match splitRemainder lineEnding (content.drop (marker ++ lineEnding.text).length) with
    | .ok (frontmatter, body) => .ok (some (frontmatter, body, lineEnding))
    | .error error => .error error

section Files
variable {σ : Type} [DecidableEq σ] (yaml : Yaml σ)

/-- A front matter's document, once for every provider. -/
def readFrontmatter (frontmatter : List Char) : Except AgentCommandError (Document σ) :=
  match yaml frontmatter with
  | .ok document => .ok document
  | .error error => .error (.invalidConfiguration ("invalid YAML frontmatter: " ++ error))

def parse (content : List Char) : Except AgentCommandError MarkdownCommand :=
  match splitFrontmatter content with
  | .error error => .error error
  | .ok none => .ok ⟨none, content, .lf⟩
  | .ok (some (frontmatter, body, lineEnding)) =>
    match readFrontmatter yaml frontmatter with
    | .error error => .error error
    | .ok (.mapping _) => .ok ⟨some frontmatter, body, lineEnding⟩
    | .ok .other =>
      if (trimChars frontmatter).isEmpty then .ok ⟨some frontmatter, body, lineEnding⟩
      else .error (.invalidConfiguration "YAML frontmatter must be a mapping")

def stringField (frontmatter : Option (List Char)) (key : String) :
    Except AgentCommandError (Option String) :=
  match frontmatter with
  | none => .ok none
  | some frontmatter =>
    if (trimChars frontmatter).isEmpty then .ok none
    else
      match readFrontmatter yaml frontmatter with
      | .error error => .error error
      | .ok .other => .error (.invalidConfiguration "YAML frontmatter must be a mapping")
      | .ok (.mapping fields) =>
        match fields.lookup (.string key) with
        | none => .ok none
        | some (.string text) => .ok (some text)
        | some (.other _) =>
          .error (.invalidConfiguration ("command " ++ key ++ " must be a string"))

/-- A line that, read alone, is a mapping with the key. -/
def isTopLevelKey (line : List Char) (key : String) : Bool :=
  trimStart line == line &&
    match yaml line with
    | .ok (.mapping fields) => (fields.lookup (.string key)).isSome
    | _ => false

def isContinuation (line : List Char) : Bool := line.head? == some ' ' || line.head? == some '\t'

/-- Where the lines that continue the line at an index end. -/
def continuationEnd (lines : List (List Char)) (index : ℕ) : ℕ :=
  index + 1 + ((lines.drop (index + 1)).takeWhile isContinuation).length

def fieldLine (key value : String) : List Char := key.toList ++ (':' :: ' ' :: printStr value)

/-- `frontmatter.split(line_ending)`, with no line for the empty text. -/
def linesOf (lineEnding : LineEnding) (frontmatter : List Char) : List (List Char) :=
  if frontmatter.isEmpty then [] else pieces lineEnding.text frontmatter

def updateLines (lines : List (List Char)) (key : String) (value : Option String) :
    Except AgentCommandError (List (List Char)) :=
  match lines.findIdxs (isTopLevelKey yaml · key), value with
  | _ :: _ :: _, _ => .error (.invalidConfiguration
      ("command frontmatter contains duplicate " ++ key ++ " fields"))
  | [index], some value =>
    .ok (lines.take index ++ fieldLine key value :: lines.drop (continuationEnd lines index))
  | [index], none => .ok (lines.take index ++ lines.drop (continuationEnd lines index))
  | [], some value => .ok (fieldLine key value :: lines)
  | [], none => .ok lines

def updateStringField (lineEnding : LineEnding) (frontmatter : List Char)
    (field : String × Option String) : Except AgentCommandError (List Char) :=
  match updateLines yaml (linesOf lineEnding frontmatter) field.1 field.2 with
  | .ok lines => .ok (lineEnding.text.intercalate lines)
  | .error error => .error error

/-- A value that does not fit on one line. -/
def breaksLine (value : String) : Bool := value.toList.any fun c => c == '\n' || c == '\r'

def checkField (field : String × Option String) : Except AgentCommandError Unit :=
  if field.2.any breaksLine then
    .error (.invalidConfiguration ("command " ++ field.1 ++ " must use one line"))
  else .ok ()

/-- A file with the front matter, when there is any. -/
def assemble (lineEnding : LineEnding) (frontmatter body : List Char) : List Char :=
  if frontmatter.isEmpty then body
  else marker ++ (lineEnding.text ++ (frontmatter ++
    (lineEnding.text ++ (marker ++ (lineEnding.text ++ body)))))

def render (currentSource : Option (List Char)) (fields : List (String × Option String))
    (body : List Char) : Except AgentCommandError (List Char) := do
  fields.forM checkField
  let existing ← currentSource.mapM (parse yaml)
  let lineEnding := (existing.map (·.lineEnding)).getD .lf
  let frontmatter := (existing.bind (·.frontmatter)).getD []
  let frontmatter ← fields.foldlM (updateStringField yaml lineEnding) frontmatter
  return assemble lineEnding frontmatter body

end Files


section Written
variable {lineEnding : LineEnding} {frontmatter body lines : List Char}

theorem LineEnding.text_ne_nil (lineEnding : LineEnding) : lineEnding.text ≠ [] := by
  cases lineEnding <;> decide

theorem LineEnding.clear_text (lineEnding : LineEnding) : Clear lineEnding.text lineEnding.text := by
  cases lineEnding <;> decide

theorem LineEnding.free_marker (lineEnding : LineEnding) : ¬ lineEnding.text <:+: marker := by
  cases lineEnding <;> decide

/-- The closing marker with the line endings around it. -/
def surrounded (lineEnding : LineEnding) : List Char :=
  lineEnding.text ++ (marker ++ lineEnding.text)

theorem opening_written (lineEnding : LineEnding) (rest : List Char) :
    opening (marker ++ (lineEnding.text ++ rest)) = some lineEnding := by
  cases lineEnding <;> rfl

theorem pieces_marker (lineEnding : LineEnding) : pieces lineEnding.text marker = [marker] :=
  pieces_free lineEnding.free_marker

theorem pieces_marker_append (lineEnding : LineEnding) (text : List Char) :
    pieces lineEnding.text (marker ++ (lineEnding.text ++ text)) =
      marker :: pieces lineEnding.text text := by
  rw [pieces_append lineEnding.text_ne_nil lineEnding.clear_text, pieces_marker,
    List.singleton_append]

theorem pieces_line_append (lineEnding : LineEnding) (text rest : List Char) :
    pieces lineEnding.text (text ++ (lineEnding.text ++ rest)) =
      pieces lineEnding.text text ++ pieces lineEnding.text rest :=
  pieces_append lineEnding.text_ne_nil lineEnding.clear_text text rest

/-- What of the surrounded marker is left over where it meets itself. -/
theorem overlap_surrounded (lineEnding : LineEnding) {s rest body tail : List Char}
    (hsplit : surrounded lineEnding = s ++ rest)
    (hover : rest ++ tail = surrounded lineEnding ++ body) (hs : s ≠ []) :
    ∃ t, s = lineEnding.text ++ (marker ++ t) ∧ (t = [] ∨ t = lineEnding.text) := by
  have hshort : rest.length ≤ (surrounded lineEnding).length := by
    rw [hsplit, List.length_append]
    omega
  have hprefix : rest <+: surrounded lineEnding := by
    refine List.prefix_of_prefix_length_le (List.prefix_append rest tail) ?_ hshort
    rw [hover]
    exact List.prefix_append (surrounded lineEnding) body
  have hall : ∀ k < (surrounded lineEnding).length + 1, k ≠ 0 →
      (surrounded lineEnding).drop k <+: surrounded lineEnding →
        (surrounded lineEnding).take k = lineEnding.text ++ marker ∨
          (surrounded lineEnding).take k = surrounded lineEnding := by
    cases lineEnding <;> decide
  have htake : (surrounded lineEnding).take s.length = s := by rw [hsplit, List.take_left]
  have hdrop : (surrounded lineEnding).drop s.length = rest := by rw [hsplit, List.drop_left]
  have hlength : s.length < (surrounded lineEnding).length + 1 := by
    rw [hsplit, List.length_append]
    omega
  have hpositive : s.length ≠ 0 := by simpa using hs
  rcases hall s.length hlength hpositive (by rw [hdrop]; exact hprefix) with h | h
  · exact ⟨[], by rw [List.append_nil, ← h, htake], .inl rfl⟩
  · exact ⟨lineEnding.text, by rw [← htake, h, surrounded], .inr rfl⟩

/-- A file that was put together is taken apart at the closing marker, when no line of its front
matter is a marker. -/
theorem splitRemainder_written (hmarker : marker ∉ pieces lineEnding.text frontmatter) :
    splitRemainder lineEnding
      (frontmatter ++ (lineEnding.text ++ (marker ++ (lineEnding.text ++ body)))) =
        .ok (frontmatter, body) := by
  have hpieces : pieces lineEnding.text
      (frontmatter ++ (lineEnding.text ++ (marker ++ (lineEnding.text ++ body)))) =
        pieces lineEnding.text frontmatter ++ marker :: pieces lineEnding.text body := by
    rw [pieces_line_append, pieces_marker_append]
  have hne := pieces_ne_nil lineEnding.text_ne_nil lineEnding.clear_text frontmatter
  have hopen : ¬ (marker ++ lineEnding.text).isPrefixOf
      (frontmatter ++ (lineEnding.text ++ (marker ++ (lineEnding.text ++ body)))) = true := by
    intro hprefix
    obtain ⟨tail, htail⟩ := List.isPrefixOf_iff_prefix.mp hprefix
    rw [← htail, List.append_assoc, pieces_marker_append] at hpieces
    cases hfront : pieces lineEnding.text frontmatter with
    | nil => exact hne hfront
    | cons first rest =>
      rw [hfront, List.cons_append] at hpieces
      rw [hfront, (List.cons.inj hpieces).1] at hmarker
      exact hmarker List.mem_cons_self
  have hwhole : frontmatter ++ (lineEnding.text ++ (marker ++ (lineEnding.text ++ body))) ≠
      marker := by
    intro hsame
    rw [hsame, pieces_marker] at hpieces
    have hlength := congrArg List.length hpieces
    have hpositive := List.length_pos_of_ne_nil hne
    simp only [List.length_append, List.length_cons, List.length_nil] at hlength
    omega
  have hsplit : splitOnce (surrounded lineEnding)
      (frontmatter ++ (surrounded lineEnding ++ body)) = some (frontmatter, body) := by
    refine splitOnce_eq fun s hs hsne hprefix => hmarker ?_
    obtain ⟨x, rfl⟩ := hs
    obtain ⟨tail, htail⟩ := hprefix
    have hdivide : ∃ t, s = lineEnding.text ++ (marker ++ t) ∧ (t = [] ∨ lineEnding.text <+: t) := by
      rcases List.append_eq_append_iff.mp htail with ⟨rest, hrest, _⟩ | ⟨rest, hrest, hover⟩
      · refine ⟨lineEnding.text ++ rest, ?_, .inr (List.prefix_append _ rest)⟩
        rw [hrest, surrounded]
        simp only [List.append_assoc]
      · obtain ⟨t, ht, hcases⟩ := overlap_surrounded lineEnding hrest hover.symm hsne
        refine ⟨t, ht, hcases.imp id fun h => ?_⟩
        rw [h]
    obtain ⟨t, rfl, hcases⟩ := hdivide
    rw [pieces_line_append, List.mem_append]
    right
    rcases hcases with rfl | ⟨rest, rfl⟩
    · rw [List.append_nil, pieces_marker]
      exact List.mem_singleton_self marker
    · rw [pieces_marker_append]
      exact List.mem_cons_self
  unfold splitRemainder
  rw [if_neg hopen, if_neg hwhole]
  have hassoc : frontmatter ++ (lineEnding.text ++ (marker ++ (lineEnding.text ++ body))) =
      frontmatter ++ (surrounded lineEnding ++ body) := by
    rw [surrounded]
    simp only [List.append_assoc]
  rw [hassoc]
  change (match splitOnce (surrounded lineEnding) _ with | some parts => _ | none => _) = _
  rw [hsplit]

/-- No line of a front matter that was split off is a marker. -/
theorem marker_free_of_split {remainder : List Char}
    (h : splitRemainder lineEnding remainder = .ok (frontmatter, body)) :
    marker ∉ pieces lineEnding.text frontmatter := by
  intro hmem
  obtain ⟨before, after, hlines⟩ := List.append_of_mem hmem
  have hjoin := intercalate_pieces lineEnding.text_ne_nil lineEnding.clear_text frontmatter
  rw [hlines] at hjoin
  -- the marker line starts the front matter, or an earlier closing marker ends before it
  have hplace (tail : List Char) :
      (marker ++ lineEnding.text) <+: frontmatter ++ (lineEnding.text ++ tail) ∨
        ∃ x y, frontmatter ++ (lineEnding.text ++ tail) = x ++ (surrounded lineEnding ++ y) ∧
          x.length < frontmatter.length := by
    have hbehind : ∃ y, lineEnding.text.intercalate (marker :: after) ++ (lineEnding.text ++ tail) =
        marker ++ (lineEnding.text ++ y) := by
      by_cases hafter : after = []
      · exact ⟨tail, by rw [hafter, List.intercalate_singleton]⟩
      · refine ⟨lineEnding.text.intercalate after ++ (lineEnding.text ++ tail), ?_⟩
        rw [List.intercalate_cons_of_ne_nil hafter]
        simp only [List.append_assoc]
    obtain ⟨y, hy⟩ := hbehind
    by_cases hbefore : before = []
    · left
      rw [← hjoin, hbefore, List.nil_append, hy, ← List.append_assoc]
      exact List.prefix_append _ y
    · right
      refine ⟨lineEnding.text.intercalate before, y, ?_, ?_⟩
      · rw [← hjoin, intercalate_append hbefore (List.cons_ne_nil marker after), List.append_assoc,
          List.append_assoc, hy, surrounded]
        simp only [List.append_assoc]
      · rw [← hjoin, intercalate_append hbefore (List.cons_ne_nil marker after), List.length_append,
          List.length_append]
        have hpositive := List.length_pos_of_ne_nil lineEnding.text_ne_nil
        omega
  unfold splitRemainder at h
  split_ifs at h with hopen hwhole
  · obtain ⟨rfl, -⟩ := Prod.mk.inj (Except.ok.inj h)
    rw [pieces_free (by
      rw [List.infix_nil]
      exact lineEnding.text_ne_nil)] at hmem
    exact absurd (List.mem_singleton.mp hmem) (by decide)
  · obtain ⟨rfl, -⟩ := Prod.mk.inj (Except.ok.inj h)
    rw [pieces_free (by
      rw [List.infix_nil]
      exact lineEnding.text_ne_nil)] at hmem
    exact absurd (List.mem_singleton.mp hmem) (by decide)
  · change (match splitOnce (surrounded lineEnding) remainder with
      | some parts => _ | none => _) = _ at h
    cases hsplit : splitOnce (surrounded lineEnding) remainder with
    | some parts =>
      rw [hsplit] at h
      have hparts : parts = (frontmatter, body) := Except.ok.inj h
      rw [hparts] at hsplit
      have htext := splitOnce_some hsplit
      rw [surrounded, List.append_assoc, List.append_assoc] at htext
      rcases hplace ((marker ++ lineEnding.text) ++ body) with hfirst | ⟨x, y, hxy, hlength⟩
      · exact hopen (List.isPrefixOf_iff_prefix.mpr (htext ▸ hfirst))
      · have hleast := splitOnce_least hsplit (htext.trans hxy)
        omega
    | none =>
      rw [hsplit] at h
      split_ifs at h with hend
      obtain ⟨hfront, -⟩ := Prod.mk.inj (Except.ok.inj h)
      obtain ⟨front, hfrontText⟩ := List.isSuffixOf_iff_suffix.mp hend
      have hfrontmatter : front = frontmatter := by
        rw [← hfront, ← hfrontText, List.length_append, Nat.add_sub_cancel, List.take_left]
      have htext : remainder = frontmatter ++ (lineEnding.text ++ marker) := by
        rw [← hfrontText, hfrontmatter]
      rcases hplace marker with hfirst | ⟨x, y, hxy, -⟩
      · exact hopen (List.isPrefixOf_iff_prefix.mpr (htext ▸ hfirst))
      · refine splitOnce_none hsplit ⟨x, y, ?_⟩
        rw [htext, hxy, List.append_assoc]

theorem opening_some {content : List Char} (h : opening content = some lineEnding) :
    ∃ rest, content = marker ++ (lineEnding.text ++ rest) := by
  unfold opening at h
  split_ifs at h with hcrlf hlf
  · obtain ⟨rest, hrest⟩ := List.isPrefixOf_iff_prefix.mp hcrlf
    exact ⟨rest, by rw [← Option.some.inj h, ← hrest, List.append_assoc]⟩
  · obtain ⟨rest, hrest⟩ := List.isPrefixOf_iff_prefix.mp hlf
    exact ⟨rest, by rw [← Option.some.inj h, ← hrest, List.append_assoc]⟩

theorem splitRemainder_length {remainder : List Char}
    (h : splitRemainder lineEnding remainder = .ok (frontmatter, body)) :
    body.length ≤ remainder.length := by
  unfold splitRemainder at h
  split_ifs at h with hopen hwhole
  · obtain ⟨-, rfl⟩ := Prod.mk.inj (Except.ok.inj h)
    rw [List.length_drop]
    omega
  · obtain ⟨-, rfl⟩ := Prod.mk.inj (Except.ok.inj h)
    exact Nat.zero_le remainder.length
  · change (match splitOnce (surrounded lineEnding) remainder with
      | some parts => _ | none => _) = _ at h
    cases hsplit : splitOnce (surrounded lineEnding) remainder with
    | some parts =>
      rw [hsplit] at h
      have hparts : parts = (frontmatter, body) := Except.ok.inj h
      rw [hparts] at hsplit
      rw [splitOnce_some hsplit, List.length_append]
      omega
    | none =>
      rw [hsplit] at h
      split_ifs at h with hend
      obtain ⟨-, rfl⟩ := Prod.mk.inj (Except.ok.inj h)
      exact Nat.zero_le remainder.length

/-- A body behind front matter is shorter than its file. -/
theorem splitFrontmatter_shorter {content : List Char}
    (h : splitFrontmatter content = .ok (some (frontmatter, body, lineEnding))) :
    body.length < content.length := by
  unfold splitFrontmatter at h
  cases hopening : opening content with
  | none =>
    rw [hopening] at h
    cases h
  | some ending =>
    rw [hopening] at h
    obtain ⟨rest, hrest⟩ := opening_some hopening
    have hdrop : content.drop (marker ++ ending.text).length = rest := by
      rw [hrest, ← List.append_assoc, List.drop_left]
    simp only [hdrop] at h
    cases hremainder : splitRemainder ending rest with
    | error error =>
      rw [hremainder] at h
      cases h
    | ok parts =>
      rw [hremainder] at h
      have hsame := Option.some.inj (Except.ok.inj h)
      have hbody : parts.2 = body := congrArg (fun p => p.2.1) hsame
      have hparts : splitRemainder ending rest = .ok (parts.1, parts.2) := hremainder
      have hle := splitRemainder_length hparts
      have hmarker : marker.length = 3 := rfl
      rw [hrest, List.length_append, List.length_append, ← hbody]
      omega

end Written

end VibeKanban.AgentCommands
