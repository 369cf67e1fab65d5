import VibeKanban.AgentCommands.Edits
import VibeKanban.Lib.Except

/-! A rendered command file read back: when its body, the fields that were set or removed and all
other fields are what they should be. -/
namespace VibeKanban.AgentCommands
open Lib Lib.JsonText

section Claim
variable {σ : Type} [DecidableEq σ] (yaml : Yaml σ)

/-- The value of a field at the top level of the front matter. -/
def topLevel (frontmatter : Option (List Char)) (key : Value σ) : Option (Value σ) :=
  match frontmatter with
  | none => none
  | some frontmatter =>
    match yaml frontmatter with
    | .ok (.mapping fields) => fields.lookup key
    | _ => none

/-- A file that was rendered from a source is accepted, with the body and the fields that were given
and the other fields of the source. -/
def RoundTrip (source : List Char) (fields : List (String × Option String)) (body : List Char) :
    Prop :=
  ∀ out, render yaml (some source) fields body = .ok out →
    ∃ before after, parse yaml source = .ok before ∧ parse yaml out = .ok after ∧
      after.body = body ∧
      (∀ field ∈ fields, stringField yaml after.frontmatter field.1 = .ok field.2) ∧
      ∀ key, (∀ field ∈ fields, key ≠ .string field.1) →
        topLevel yaml after.frontmatter key = topLevel yaml before.frontmatter key

/-- Front matter that is laid out in the stretches, none for a file without. -/
structure Editable (command : MarkdownCommand) (fields : List (String × Option String))
    (stretches : List (Stretch σ)) : Prop
    extends Laid yaml command.lineEnding fields stretches where
  lines : linesOf command.lineEnding (command.frontmatter.getD []) = linesIn stretches

/-- Fields that YAML reads as they are written, each given once. -/
structure Writable (fields : List (String × Option String)) : Prop where
  names : (fields.map Prod.fst).Nodup
  keys : ∀ field ∈ fields, PlainKey field.1
  values : ∀ field ∈ fields, ∀ value ∈ field.2, Literal value

/-- A field is left after the edits, or the blank lines that are left show as front matter, or
nothing is left and the body does not open like front matter. -/
def Remains (stretches : List (Stretch σ)) (fields : List (String × Option String))
    (body : List Char) : Prop :=
  (∃ field ∈ fields, field.2.isSome = true) ∨
    (∃ key ∈ (fieldsOf stretches).map Prod.fst, ∀ field ∈ fields, key ≠ .string field.1) ∨
    (∀ s ∈ stretches.filter (·.fields.isEmpty), s.lines = [[]]) ∧
      (2 ≤ (stretches.filter (·.fields.isEmpty)).length ∨ opening body = none)

end Claim

section Standing
variable {σ : Type} [DecidableEq σ] {yaml : Yaml σ} {lineEnding : LineEnding}
variable {fields : List (String × Option String)} {stretches : List (Stretch σ)} {body : List Char}

def textOf (lineEnding : LineEnding) (stretches : List (Stretch σ)) : List Char :=
  lineEnding.text.intercalate (linesIn stretches)

/-- Stretches of whole lines, none of them a marker. -/
structure Standing (yaml : Yaml σ) (lineEnding : LineEnding) (fields : List (String × Option String))
    (stretches : List (Stretch σ)) : Prop extends Laid yaml lineEnding fields stretches where
  free : ∀ line ∈ linesIn stretches, ¬ lineEnding.text <:+: line
  unmarked : marker ∉ linesIn stretches

/-- The blank lines and comments of front matter: a single blank line may get lost. -/
def FillersKept (old new : List (Stretch σ)) : Prop :=
  new.filter (·.fields.isEmpty) = old.filter (·.fields.isEmpty) ∨
    new.filter (·.fields.isEmpty) = [] ∧
      ∃ s, old.filter (·.fields.isEmpty) = [s] ∧ s.lines = [[]]

omit [DecidableEq σ] in
theorem FillersKept.trans {l m n : List (Stretch σ)} (h : FillersKept l m) (h' : FillersKept m n) :
    FillersKept l n := by
  rcases h with h | ⟨hnone, s, hs, hblank⟩
  · rcases h' with h' | ⟨hnone, s, hs, hblank⟩
    · exact .inl (h'.trans h)
    · exact .inr ⟨hnone, s, h ▸ hs, hblank⟩
  · rcases h' with h' | ⟨hnone', _⟩
    · exact .inr ⟨h'.trans hnone, s, hs, hblank⟩
    · exact .inr ⟨hnone', s, hs, hblank⟩

theorem Standing.empty : Standing yaml lineEnding fields ([] : List (Stretch σ)) :=
  ⟨⟨by simp, List.nodup_nil, by simp⟩, fun _ h => (List.not_mem_nil h).elim, List.not_mem_nil⟩

/-- The lines that are split off the text, as stretches. -/
theorem Standing.settle (h : Standing yaml lineEnding fields stretches) :
    ∃ settled, linesOf lineEnding (textOf lineEnding stretches) = linesIn settled ∧
      Standing yaml lineEnding fields settled ∧ fieldsOf settled = fieldsOf stretches ∧
        FillersKept stretches settled := by
  by_cases hline : linesIn stretches = [[]]
  · cases hstretches : stretches with
    | nil =>
      rw [hstretches] at hline
      cases hline
    | cons s rest =>
      rw [hstretches, linesIn, List.flatMap_cons] at hline
      obtain ⟨line, others, hs, -⟩ := (h.reads s (by simp [hstretches])).first_line
      have hrest : rest = [] := by
        cases rest with
        | nil => rfl
        | cons s' rest =>
          obtain ⟨line', others', hs', -⟩ := (h.reads s' (by simp [hstretches])).first_line
          rw [hs, List.flatMap_cons, hs'] at hline
          have hlength := congrArg List.length hline
          simp only [List.length_append, List.length_cons, List.length_nil] at hlength
          omega
      rw [hrest, List.flatMap_nil, List.append_nil] at hline
      have hfields : s.fields = [] := by
        rcases h.reads s (by simp [hstretches]) with ⟨hfields, -⟩ | hblock
        · exact hfields
        · obtain ⟨c, line, rest, hlines, -⟩ := hblock.first_line
          rw [hline] at hlines
          cases hlines
      refine ⟨[], ?_, Standing.empty, ?_, .inr ⟨rfl, s, ?_, hline⟩⟩
      · rw [hrest, textOf, linesIn, List.flatMap_singleton, hline]
        rfl
      · rw [hrest, fieldsOf, fieldsOf, List.flatMap_singleton, hfields]
        rfl
      · rw [hrest]
        simp [hfields]
  · exact ⟨stretches, linesOf_intercalate h.free hline, h, rfl, .inl rfl⟩

/-- What updates of a list of fields do. -/
structure Updated (todo : List (String × Option String)) (stretches updated : List (Stretch σ)) :
    Prop where
  set : ∀ field ∈ todo, (fieldsOf updated).lookup (.string field.1) = field.2.map .string
  kept : ∀ key, (∀ field ∈ todo, key ≠ .string field.1) →
    (fieldsOf updated).lookup key = (fieldsOf stretches).lookup key
  fillers : FillersKept stretches updated

theorem Standing.update (hlawful : yaml.Lawful) (hwritable : Writable fields)
    (h : Standing yaml lineEnding fields stretches) {field : String × Option String}
    (hfield : field ∈ fields) :
    ∃ updated, updateStringField yaml lineEnding (textOf lineEnding stretches) field =
        .ok (textOf lineEnding updated) ∧
      Standing yaml lineEnding fields updated ∧ Updated [field] stretches updated := by
  obtain ⟨settled, hlines, hsettled, hfields, hfillers⟩ := h.settle
  have hkey := hwritable.keys field hfield
  have hvalue := hwritable.values field hfield
  obtain ⟨edited, hupdate, hlaid, hedited⟩ :=
    hsettled.toLaid.edit hlawful hfield hkey hvalue
  refine ⟨edited, ?_, ⟨hlaid, fun line hline => ?_, fun hmarker => ?_⟩, ⟨?_, fun key hother => ?_, ?_⟩⟩
  · rw [updateStringField, hlines, hupdate]
    rfl
  · rcases hedited.lines line hline with hold | ⟨text, htext, rfl⟩
    · exact hsettled.free line hold
    · exact fieldLine_free hkey (hvalue text htext) lineEnding
  · rcases hedited.lines marker hmarker with hold | ⟨text, -, heq⟩
    · exact hsettled.unmarked hold
    · exact fieldLine_ne_marker heq.symm
  · intro other hother
    rw [List.mem_singleton.mp hother]
    exact hedited.set
  · rw [hedited.kept key (hother field List.mem_cons_self), hfields]
  · exact hfillers.trans (.inl hedited.fillers)

/-- The loop over the fields. -/
theorem Standing.updates (hlawful : yaml.Lawful) (hwritable : Writable fields)
    (h : Standing yaml lineEnding fields stretches) {todo : List (String × Option String)}
    (hsub : ∀ field ∈ todo, field ∈ fields) (hnames : (todo.map Prod.fst).Nodup) :
    ∃ updated, todo.foldlM (updateStringField yaml lineEnding) (textOf lineEnding stretches) =
        .ok (textOf lineEnding updated) ∧
      Standing yaml lineEnding fields updated ∧ Updated todo stretches updated := by
  induction todo generalizing stretches with
  | nil => exact ⟨stretches, rfl, h, by simp, fun _ _ => rfl, .inl rfl⟩
  | cons field todo ih =>
    rw [List.map_cons, List.nodup_cons] at hnames
    obtain ⟨first, hfirst, hstanding, hset⟩ := h.update hlawful hwritable (hsub field List.mem_cons_self)
    obtain ⟨updated, hrest, hstanding, hupdated⟩ := ih hstanding
      (fun field hmem => hsub field (List.mem_cons_of_mem _ hmem)) hnames.2
    have hapart : ∀ other ∈ todo, (Value.string field.1 : Value σ) ≠ .string other.1 := by
      intro other hother heq
      exact hnames.1 (List.mem_map.mpr ⟨other, hother, (Value.string.inj heq).symm⟩)
    refine ⟨updated, ?_, hstanding, fun other hother => ?_, fun key hkey => ?_,
      hset.fillers.trans hupdated.fillers⟩
    · rw [List.foldlM_cons, hfirst]
      exact hrest
    · rcases List.mem_cons.mp hother with rfl | hother
      · rw [hupdated.kept _ hapart]
        exact hset.set other List.mem_cons_self
      · exact hupdated.set other hother
    · rw [hupdated.kept key fun other hother => hkey other (List.mem_cons_of_mem _ hother),
        hset.kept key fun other hother => by
          rw [List.mem_singleton.mp hother]
          exact hkey field List.mem_cons_self]

theorem Standing.read (hlawful : yaml.Lawful) (h : Standing yaml lineEnding fields stretches) :
    yaml (textOf lineEnding stretches) = .ok (.ofFields (fieldsOf stretches)) :=
  hlawful.stretches lineEnding stretches h.reads h.nodup

theorem Standing.topLevel (hlawful : yaml.Lawful) (h : Standing yaml lineEnding fields stretches)
    (key : Value σ) :
    topLevel yaml (some (textOf lineEnding stretches)) key = (fieldsOf stretches).lookup key := by
  simp only [AgentCommands.topLevel, h.read hlawful, Document.ofFields]
  cases fieldsOf stretches <;> rfl

theorem mem_intercalate {sep line : List Char} {lines : List (List Char)} {c : Char}
    (hc : c ∈ line) (hline : line ∈ lines) : c ∈ sep.intercalate lines := by
  induction lines with
  | nil => cases hline
  | cons first rest ih =>
    by_cases hrest : rest = []
    · rw [hrest, List.mem_singleton] at hline
      rw [hrest, List.intercalate_singleton, ← hline]
      exact hc
    · rw [List.intercalate_cons_of_ne_nil hrest, List.append_assoc, List.mem_append, List.mem_append]
      rcases List.mem_cons.mp hline with rfl | hline
      · exact .inl hc
      · exact .inr (.inr (ih hline))

theorem trimChars_not_empty {s : List Char} {c : Char} (hc : c ∈ s) (hspace : isWhitespace c = false) :
    (trimChars s).isEmpty = false := by
  have hmem : c ∈ trimChars s := by
    rw [trimChars, List.mem_reverse]
    exact mem_trimStart (List.mem_reverse.mpr (mem_trimStart hc hspace)) hspace
  rw [List.isEmpty_eq_false_iff]
  exact List.ne_nil_of_mem hmem

theorem trimChars_blank {s : List Char} (h : ∀ c ∈ s, isWhitespace c = true) : trimChars s = [] := by
  have hstart : trimStart s = [] := List.dropWhile_eq_nil_iff.mpr h
  rw [trimChars, hstart]
  rfl

/-- Front matter with a field is no blank text. -/
theorem Standing.not_blank (h : Standing yaml lineEnding fields stretches)
    (hfields : fieldsOf stretches ≠ []) :
    (trimChars (textOf lineEnding stretches)).isEmpty = false := by
  obtain ⟨p, hp⟩ := List.exists_mem_of_ne_nil _ hfields
  obtain ⟨s, hs, hp⟩ := List.mem_flatMap.mp hp
  rcases h.reads s hs with ⟨hnone, -⟩ | hblock
  · rw [hnone] at hp
    cases hp
  · obtain ⟨c, line, rest, hlines, hstarts⟩ := hblock.first_line
    have hline : c :: line ∈ linesIn stretches :=
      List.mem_flatMap.mpr ⟨s, hs, hlines ▸ List.mem_cons_self⟩
    exact trimChars_not_empty (mem_intercalate List.mem_cons_self hline) (startsKey_not_space hstarts)

theorem Standing.split (h : Standing yaml lineEnding fields stretches)
    (htext : textOf lineEnding stretches ≠ []) :
    splitFrontmatter (assemble lineEnding (textOf lineEnding stretches) body) =
      .ok (some (textOf lineEnding stretches, body, lineEnding)) := by
  have hlines : linesIn stretches ≠ [] := by
    intro hnil
    rw [textOf, hnil, List.intercalate_nil] at htext
    exact htext rfl
  have hpieces : pieces lineEnding.text (textOf lineEnding stretches) = linesIn stretches :=
    pieces_intercalate lineEnding.text_ne_nil lineEnding.clear_text hlines h.free
  have hremainder := @splitRemainder_written lineEnding _ body (hpieces ▸ h.unmarked)
  unfold splitFrontmatter assemble
  rw [if_neg (by simpa using htext), opening_written]
  simp only
  rw [← List.append_assoc marker, List.drop_left, hremainder]

theorem splitFrontmatter_eq_none {content : List Char} :
    splitFrontmatter content = .ok none ↔ opening content = none := by
  unfold splitFrontmatter
  cases opening content with
  | none => simp
  | some lineEnding =>
    simp only
    cases splitRemainder lineEnding (content.drop (marker ++ lineEnding.text).length) with
    | error error => simp
    | ok parts => simp

omit [DecidableEq σ] in
/-- A body read as a whole file is itself again exactly when it does not open like front matter. -/
theorem parse_body_iff : (∃ command, parse yaml body = .ok command ∧ command.body = body) ↔
    opening body = none := by
  constructor
  · rintro ⟨command, hparse, hbody⟩
    unfold parse at hparse
    cases hsplit : splitFrontmatter body with
    | error error =>
      rw [hsplit] at hparse
      cases hparse
    | ok parts =>
      cases parts with
      | none => exact splitFrontmatter_eq_none.mp hsplit
      | some parts =>
        obtain ⟨frontmatter, inner, lineEnding⟩ := parts
        have hshorter := splitFrontmatter_shorter hsplit
        have hinner : inner = body := by
          rw [hsplit] at hparse
          simp only at hparse
          rw [← hbody]
          split at hparse
          · cases hparse
          · rw [← Except.ok.inj hparse]
          · split_ifs at hparse
            rw [← Except.ok.inj hparse]
        rw [hinner] at hshorter
        exact absurd hshorter (lt_irrefl _)
  · intro hopening
    refine ⟨⟨none, body, .lf⟩, ?_, rfl⟩
    rw [parse, splitFrontmatter_eq_none.mpr hopening]

omit [DecidableEq σ] in
theorem parse_unopened (h : opening body = none) : parse yaml body = .ok ⟨none, body, .lf⟩ := by
  rw [parse, splitFrontmatter_eq_none.mpr h]

omit [DecidableEq σ] in
/-- What parsing needs of the text between the markers. -/
theorem parse_split {content frontmatter : List Char}
    (h : splitFrontmatter content = .ok (some (frontmatter, body, lineEnding)))
    {found : List (Value σ × Value σ)} (hread : yaml frontmatter = .ok (.ofFields found)) :
    parse yaml content = if found = [] ∧ (trimChars frontmatter).isEmpty = false then
        .error (.invalidConfiguration "YAML frontmatter must be a mapping")
      else .ok ⟨some frontmatter, body, lineEnding⟩ := by
  simp only [parse, h, readFrontmatter, hread, Document.ofFields]
  cases found with
  | nil =>
    cases (trimChars frontmatter).isEmpty
    · rfl
    · rfl
  | cons field rest => rfl

omit [DecidableEq σ] in
/-- The front matter that a source was parsed to has no marker line. -/
theorem parse_unmarked {source : List Char} {command : MarkdownCommand}
    (hparse : parse yaml source = .ok command) :
    marker ∉ linesOf command.lineEnding (command.frontmatter.getD []) := by
  have hnil : marker ∉ linesOf command.lineEnding [] := List.not_mem_nil
  unfold parse at hparse
  cases hsplit : splitFrontmatter source with
  | error error =>
    rw [hsplit] at hparse
    cases hparse
  | ok parts =>
    cases parts with
    | none =>
      rw [hsplit] at hparse
      rw [← Except.ok.inj hparse]
      exact List.not_mem_nil
    | some parts =>
      obtain ⟨frontmatter, body, lineEnding⟩ := parts
      have hcommand : command = ⟨some frontmatter, body, lineEnding⟩ := by
        rw [hsplit] at hparse
        simp only at hparse
        split at hparse
        · cases hparse
        · exact (Except.ok.inj hparse).symm
        · split_ifs at hparse
          exact (Except.ok.inj hparse).symm
      rw [hcommand]
      unfold splitFrontmatter at hsplit
      cases hopening : opening source with
      | none =>
        rw [hopening] at hsplit
        cases hsplit
      | some ending =>
        rw [hopening] at hsplit
        simp only at hsplit
        cases hremainder : splitRemainder ending (source.drop (marker ++ ending.text).length) with
        | error error =>
          rw [hremainder] at hsplit
          cases hsplit
        | ok parts =>
          rw [hremainder] at hsplit
          obtain ⟨rfl, htail⟩ := Prod.mk.inj (Option.some.inj (Except.ok.inj hsplit))
          obtain ⟨rfl, rfl⟩ := Prod.mk.inj htail
          simp only [Option.getD_some, linesOf]
          split_ifs
          · exact List.not_mem_nil
          · exact marker_free_of_split hremainder

variable {source : List Char} {command : MarkdownCommand}

theorem render_eq (hparse : parse yaml source = .ok command)
    (hlines : ∀ field ∈ fields, field.2.any breaksLine = false) :
    render yaml (some source) fields body =
      (fields.foldlM (updateStringField yaml command.lineEnding)
        (command.frontmatter.getD [])).map (assemble command.lineEnding · body) := by
  have hchecks : fields.forM checkField = .ok () := by
    rw [forM_ok_iff]
    intro field hfield
    rw [checkField, hlines field hfield]
    rfl
  have hexisting : (some source).mapM (parse yaml) = .ok (some command) := by
    change some <$> parse yaml source = _
    rw [hparse]
    rfl
  unfold render
  rw [hchecks, hexisting]
  change (fields.foldlM (updateStringField yaml command.lineEnding) (command.frontmatter.getD []) >>=
    fun frontmatter => Except.ok (assemble command.lineEnding frontmatter body)) = _
  cases fields.foldlM (updateStringField yaml command.lineEnding) (command.frontmatter.getD []) <;> rfl

theorem render_refused (hlines : ∃ field ∈ fields, field.2.any breaksLine = true) (out : List Char) :
    render yaml (some source) fields body ≠ .ok out := by
  intro hrender
  obtain ⟨_, hchecks, -⟩ := except_bind_ok hrender
  rw [forM_ok_iff] at hchecks
  obtain ⟨field, hfield, hbreaks⟩ := hlines
  have hcheck := hchecks field hfield
  rw [checkField, if_pos hbreaks] at hcheck
  cases hcheck

theorem Editable.standing (hparse : parse yaml source = .ok command)
    (h : Editable yaml command fields stretches) :
    Standing yaml command.lineEnding fields stretches :=
  ⟨h.toLaid, fun _ hline => linesOf_free (h.lines ▸ hline), h.lines ▸ parse_unmarked hparse⟩

theorem Editable.text (h : Editable yaml command fields stretches) :
    command.frontmatter.getD [] = textOf command.lineEnding stretches := by
  rw [textOf, ← h.lines, intercalate_linesOf]

/-- The fields of the source. -/
theorem Editable.topLevel (hlawful : yaml.Lawful) (hparse : parse yaml source = .ok command)
    (h : Editable yaml command fields stretches) (key : Value σ) :
    topLevel yaml command.frontmatter key = (fieldsOf stretches).lookup key := by
  have htext := h.text
  have hlines := h.lines
  cases hfrontmatter : command.frontmatter with
  | some frontmatter =>
    rw [hfrontmatter, Option.getD_some] at htext
    rw [htext]
    exact (h.standing hparse).topLevel hlawful key
  | none =>
    rw [hfrontmatter, Option.getD_none] at hlines
    cases hstretches : stretches with
    | nil => rfl
    | cons s rest =>
      obtain ⟨line, others, hs, -⟩ := (h.reads s (by simp [hstretches])).first_line
      rw [hstretches, linesIn, List.flatMap_cons, hs] at hlines
      cases hlines

/-- Fields are left exactly when one was set or one of the source was not mentioned. -/
theorem Updated.some_field {updated : List (Stretch σ)} (h : Updated fields stretches updated) :
    fieldsOf updated ≠ [] ↔ (∃ field ∈ fields, field.2.isSome = true) ∨
      ∃ key ∈ (fieldsOf stretches).map Prod.fst, ∀ field ∈ fields, key ≠ .string field.1 := by
  have hlookup {l : List (Value σ × Value σ)} {key : Value σ} :
      (l.lookup key).isSome = true ↔ key ∈ l.map Prod.fst := by
    rw [List.lookup_isSome_iff, List.mem_map]
    simp only [beq_iff_eq]
    exact ⟨fun ⟨p, hp, heq⟩ => ⟨p, hp, heq.symm⟩, fun ⟨p, hp, heq⟩ => ⟨p, hp, heq.symm⟩⟩
  have hsome {l : List (Value σ × Value σ)} (key : Value σ) (hkey : (l.lookup key).isSome = true) :
      l ≠ [] := by
    rintro rfl
    cases hkey
  constructor
  · intro hne
    obtain ⟨p, hp⟩ := List.exists_mem_of_ne_nil _ hne
    have hfound := hlookup.mpr (List.mem_map_of_mem (f := Prod.fst) hp)
    by_cases hmentioned : ∃ field ∈ fields, p.1 = .string field.1
    · obtain ⟨field, hfield, heq⟩ := hmentioned
      rw [heq, h.set field hfield, Option.isSome_map] at hfound
      exact .inl ⟨field, hfield, hfound⟩
    · have hother : ∀ field ∈ fields, p.1 ≠ .string field.1 := fun field hfield heq =>
        hmentioned ⟨field, hfield, heq⟩
      rw [h.kept p.1 hother] at hfound
      exact .inr ⟨p.1, hlookup.mp hfound, hother⟩
  · rintro (⟨field, hfield, hset⟩ | ⟨key, hkey, hother⟩)
    · refine hsome (.string field.1) ?_
      rw [h.set field hfield, Option.isSome_map]
      exact hset
    · refine hsome key ?_
      rw [h.kept key hother]
      exact hlookup.mpr hkey

/-- The one file that is rendered decides. -/
theorem roundTrip_iff {out : List Char} (hparse : parse yaml source = .ok command)
    (hrender : render yaml (some source) fields body = .ok out) :
    RoundTrip yaml source fields body ↔ ∃ after, parse yaml out = .ok after ∧ after.body = body ∧
      (∀ field ∈ fields, stringField yaml after.frontmatter field.1 = .ok field.2) ∧
      ∀ key, (∀ field ∈ fields, key ≠ .string field.1) →
        AgentCommands.topLevel yaml after.frontmatter key =
          AgentCommands.topLevel yaml command.frontmatter key := by
  constructor
  · intro h
    obtain ⟨before, after, hbefore, hafter⟩ := h out hrender
    rw [hparse] at hbefore
    rw [Except.ok.inj hbefore]
    exact ⟨after, hafter⟩
  · rintro ⟨after, hafter⟩ other hother
    rw [hrender] at hother
    rw [← Except.ok.inj hother]
    exact ⟨command, after, hparse, hafter⟩

/-- A field of the text is read, none where nothing but blank lines is left. -/
theorem Standing.stringField (hlawful : yaml.Lawful) (h : Standing yaml lineEnding fields stretches)
    {key : String} {value : Option String}
    (hset : (fieldsOf stretches).lookup (.string key) = value.map .string)
    (hblank : fieldsOf stretches ≠ [] ∨ (trimChars (textOf lineEnding stretches)).isEmpty = true) :
    stringField yaml (some (textOf lineEnding stretches)) key = .ok value := by
  cases hempty : (trimChars (textOf lineEnding stretches)).isEmpty with
  | true =>
    have hfields : fieldsOf stretches = [] := by
      by_contra hne
      rw [h.not_blank hne] at hempty
      cases hempty
    rw [hfields, List.lookup_nil, eq_comm, Option.map_eq_none_iff] at hset
    simp only [AgentCommands.stringField, hempty, hset]
    rfl
  | false =>
    have hne : fieldsOf stretches ≠ [] := hblank.resolve_right (by rw [hempty]; exact Bool.false_ne_true)
    have hof : Document.ofFields (fieldsOf stretches) = .mapping (fieldsOf stretches) := by
      rw [Document.ofFields, if_neg (by simpa using hne)]
    simp only [AgentCommands.stringField, hempty, readFrontmatter, h.read hlawful, hof, hset]
    cases value <;> rfl

/-- Front matter that is still a mapping, or blank: everything reads as it should. -/
theorem Standing.reads_back (hlawful : yaml.Lawful) (hparse : parse yaml source = .ok command)
    (heditable : Editable yaml command fields stretches) {updated : List (Stretch σ)}
    (h : Standing yaml lineEnding fields updated) (hupdated : Updated fields stretches updated)
    (htext : textOf lineEnding updated ≠ [])
    (hblank : fieldsOf updated ≠ [] ∨ (trimChars (textOf lineEnding updated)).isEmpty = true) :
    ∃ after, parse yaml (assemble lineEnding (textOf lineEnding updated) body) = .ok after ∧
      after.body = body ∧
      (∀ field ∈ fields, AgentCommands.stringField yaml after.frontmatter field.1 = .ok field.2) ∧
      ∀ key, (∀ field ∈ fields, key ≠ .string field.1) →
        AgentCommands.topLevel yaml after.frontmatter key =
          AgentCommands.topLevel yaml command.frontmatter key := by
  refine ⟨⟨some (textOf lineEnding updated), body, lineEnding⟩, ?_, rfl, fun field hfield => ?_,
    fun key hkey => ?_⟩
  · rw [parse_split (h.split htext) (h.read hlawful), if_neg]
    rintro ⟨hnone, htrim⟩
    rcases hblank with hne | hempty
    · exact hne hnone
    · rw [hempty] at htrim
      cases htrim
  · exact h.stringField hlawful (hupdated.set field hfield) hblank
  · rw [h.topLevel hlawful, hupdated.kept key hkey, heditable.topLevel hlawful hparse]

omit [DecidableEq σ] in
theorem linesIn_blank (h : ∀ s ∈ stretches, s.lines = [[]]) :
    linesIn stretches = List.replicate stretches.length [] := by
  induction stretches with
  | nil => rfl
  | cons s rest ih =>
    rw [linesIn, List.flatMap_cons, h s List.mem_cons_self, List.length_cons, List.replicate_succ,
      List.singleton_append]
    exact congrArg _ (ih fun s hs => h s (List.mem_cons_of_mem _ hs))

theorem isWhitespace_blank {n : ℕ} :
    ∀ c ∈ lineEnding.text.intercalate (List.replicate n []), isWhitespace c = true := by
  have hending : ∀ c ∈ lineEnding.text, isWhitespace c = true := by
    cases lineEnding <;> simp [LineEnding.text, isWhitespace]
  induction n with
  | zero => exact fun c hc => (List.not_mem_nil hc).elim
  | succ n ih =>
    intro c hc
    rw [List.replicate_succ] at hc
    by_cases hrest : List.replicate n ([] : List Char) = []
    · rw [hrest, List.intercalate_singleton] at hc
      cases hc
    · rw [List.intercalate_cons_of_ne_nil hrest, List.nil_append] at hc
      rcases List.mem_append.mp hc with hc | hc
      · exact hending c hc
      · exact ih c hc

/-- No field is left: the file reads back when the blank lines left show as front matter or the body
stands alone. -/
theorem Standing.reads_back_blank (hlawful : yaml.Lawful) (hparse : parse yaml source = .ok command)
    (heditable : Editable yaml command fields stretches) {updated : List (Stretch σ)}
    (h : Standing yaml lineEnding fields updated) (hupdated : Updated fields stretches updated)
    (hnone : fieldsOf updated = []) (hblank : ∀ s ∈ updated, s.lines = [[]]) :
    (∃ after, parse yaml (assemble lineEnding (textOf lineEnding updated) body) = .ok after ∧
      after.body = body ∧
      (∀ field ∈ fields, AgentCommands.stringField yaml after.frontmatter field.1 = .ok field.2) ∧
      ∀ key, (∀ field ∈ fields, key ≠ .string field.1) →
        AgentCommands.topLevel yaml after.frontmatter key =
          AgentCommands.topLevel yaml command.frontmatter key) ↔
      2 ≤ updated.length ∨ opening body = none := by
  have hlines := linesIn_blank hblank
  by_cases htwo : 2 ≤ updated.length
  · refine iff_of_true ?_ (.inl htwo)
    have htext : textOf lineEnding updated ≠ [] := by
      intro hnil
      rw [textOf, hlines] at hnil
      rcases intercalate_eq_nil hnil with hfew | hfew
      · have hlength := congrArg List.length hfew
        rw [List.length_replicate, List.length_nil] at hlength
        omega
      · have hlength := congrArg List.length hfew
        rw [List.length_replicate, List.length_singleton] at hlength
        omega
    refine h.reads_back hlawful hparse heditable hupdated htext (.inr ?_)
    rw [textOf, hlines, trimChars_blank isWhitespace_blank]
    rfl
  · have htext : textOf lineEnding updated = [] := by
      rw [textOf, hlines]
      interval_cases updated.length
      · rfl
      · exact List.intercalate_singleton
    have hout : assemble lineEnding (textOf lineEnding updated) body = body := by
      rw [htext]
      rfl
    rw [hout, or_iff_right htwo]
    constructor
    · rintro ⟨after, hafter, hbody, -⟩
      exact parse_body_iff.mp ⟨after, hafter, hbody⟩
    · intro hopening
      refine ⟨_, parse_unopened hopening, rfl, fun field hfield => ?_, fun key hkey => ?_⟩
      · have hset := hupdated.set field hfield
        rw [hnone, List.lookup_nil, eq_comm, Option.map_eq_none_iff] at hset
        rw [hset]
        rfl
      · rw [heditable.topLevel hlawful hparse, ← hupdated.kept key hkey, hnone]
        rfl

/-- A comment left without any field is not accepted as front matter. -/
theorem Standing.comment_refused (hlawful : yaml.Lawful) {updated : List (Stretch σ)}
    (h : Standing yaml lineEnding fields updated) (hnone : fieldsOf updated = [])
    (hcomment : ∃ s ∈ updated, s.fields = [] ∧ s.lines ≠ [[]]) :
    parse yaml (assemble lineEnding (textOf lineEnding updated) body) =
      .error (.invalidConfiguration "YAML frontmatter must be a mapping") := by
  obtain ⟨s, hs, hfields, hlines⟩ := hcomment
  have hhash : '#' ∈ textOf lineEnding updated := by
    rcases h.reads s hs with ⟨-, line, hline, hfiller⟩ | hblock
    · rcases hfiller.form with rfl | hhead
      · exact absurd hline hlines
      · refine mem_intercalate (List.mem_of_mem_head? hhead) (List.mem_flatMap.mpr ⟨s, hs, ?_⟩)
        rw [hline]
        exact List.mem_singleton_self line
    · exact absurd hfields hblock.some_field
  have htext : textOf lineEnding updated ≠ [] := List.ne_nil_of_mem hhash
  have htrim : (trimChars (textOf lineEnding updated)).isEmpty = false :=
    trimChars_not_empty hhash (by decide)
  rw [parse_split (h.split htext) (h.read hlawful), if_pos ⟨hnone, htrim⟩]

/-- Front matter laid out in stretches reads back as it should when a field remains, or nothing that
the reader would take for something else. -/
theorem roundTrip_editable_iff (hlawful : yaml.Lawful) (hparse : parse yaml source = .ok command)
    (hwritable : Writable fields) (heditable : Editable yaml command fields stretches) :
    RoundTrip yaml source fields body ↔
      (∃ field ∈ fields, field.2.any breaksLine = true) ∨ Remains stretches fields body := by
  by_cases hbreaks : ∃ field ∈ fields, field.2.any breaksLine = true
  · exact iff_of_true (fun out hrender => absurd hrender (render_refused hbreaks out)) (.inl hbreaks)
  have hlines : ∀ field ∈ fields, field.2.any breaksLine = false := by
    intro field hfield
    rw [Bool.eq_false_iff]
    exact fun h => hbreaks ⟨field, hfield, h⟩
  obtain ⟨updated, hfold, hstanding, hupdated⟩ := (heditable.standing hparse).updates hlawful
    hwritable (fun _ hfield => hfield) hwritable.names
  have hrender : render yaml (some source) fields body =
      .ok (assemble command.lineEnding (textOf command.lineEnding updated) body) := by
    rw [render_eq hparse hlines, heditable.text, hfold]
    rfl
  rw [or_iff_right hbreaks, roundTrip_iff hparse hrender, Remains, ← or_assoc,
    ← hupdated.some_field]
  by_cases hnone : fieldsOf updated = []
  · rw [or_iff_right (not_not.mpr hnone)]
    have hempty : ∀ s ∈ updated, s.fields = [] := List.flatMap_eq_nil_iff.mp hnone
    have hall : updated.filter (·.fields.isEmpty) = updated := by
      rw [List.filter_eq_self]
      intro s hs
      rw [hempty s hs]
      rfl
    have hfillers := hupdated.fillers
    rw [FillersKept, hall] at hfillers
    by_cases hblank : ∀ s ∈ stretches.filter (·.fields.isEmpty), s.lines = [[]]
    · rw [and_iff_right hblank]
      have hblankNew : ∀ s ∈ updated, s.lines = [[]] := by
        rcases hfillers with hsame | ⟨hnil, -⟩
        · rwa [hsame]
        · simp [hnil]
      rw [hstanding.reads_back_blank hlawful hparse heditable hupdated hnone hblankNew]
      have hcount : 2 ≤ updated.length ↔ 2 ≤ (stretches.filter (·.fields.isEmpty)).length := by
        rcases hfillers with hsame | ⟨hnil, s, hs, -⟩
        · rw [hsame]
        · rw [hnil, hs, List.length_nil, List.length_singleton]
          omega
      rw [hcount]
    · -- a comment is left, which no reader accepts without a field
      have hsame : updated = stretches.filter (·.fields.isEmpty) := by
        rcases hfillers with hsame | ⟨-, s, hs, hline⟩
        · exact hsame
        · exact absurd (by simpa [hs] using hline) hblank
      simp only [not_forall] at hblank
      obtain ⟨s, hs, hline⟩ := hblank
      have hrefused : parse yaml (assemble command.lineEnding (textOf command.lineEnding updated) body) =
          .error (.invalidConfiguration "YAML frontmatter must be a mapping") :=
        hstanding.comment_refused hlawful hnone ⟨s, hsame ▸ hs, hempty s (hsame ▸ hs), hline⟩
      refine iff_of_false ?_ fun h => hline (h.1 s hs)
      rintro ⟨after, hafter, -⟩
      rw [hrefused] at hafter
      cases hafter
  · have htext : textOf command.lineEnding updated ≠ [] := by
      intro hnil
      have hblank := hstanding.not_blank hnone
      rw [hnil] at hblank
      cases hblank
    exact iff_of_true
      (hstanding.reads_back hlawful hparse heditable hupdated htext (.inl hnone)) (.inl hnone)

/-- No field is set and no line shows one of those to remove. -/
def Untouched (yaml : Yaml σ) (command : MarkdownCommand) (fields : List (String × Option String)) :
    Prop :=
  ∀ field ∈ fields, field.2 = none ∧
    ∀ line ∈ linesOf command.lineEnding (command.frontmatter.getD []),
      isTopLevelKey yaml line field.1 = false

theorem Untouched.foldlM (h : Untouched yaml command fields) :
    fields.foldlM (updateStringField yaml command.lineEnding) (command.frontmatter.getD []) =
      .ok (command.frontmatter.getD []) := by
  induction fields with
  | nil => rfl
  | cons field rest ih =>
    obtain ⟨hnone, hquiet⟩ := h field List.mem_cons_self
    have hupdate : updateStringField yaml command.lineEnding (command.frontmatter.getD []) field =
        .ok (command.frontmatter.getD []) := by
      rw [updateStringField, updateLines_absent hquiet, hnone]
      change Except.ok (command.lineEnding.text.intercalate (linesOf command.lineEnding _)) = _
      rw [intercalate_linesOf]
    rw [List.foldlM_cons, hupdate]
    exact ih fun field hfield => h field (List.mem_cons_of_mem _ hfield)

end Standing

section Untouched
variable {σ : Type} [DecidableEq σ] {yaml : Yaml σ} {source body : List Char}
variable {fields : List (String × Option String)} {command : MarkdownCommand}

omit [DecidableEq σ] in
/-- Whether front matter is accepted does not depend on the file around it. -/
theorem parse_same {out frontmatter : List Char} (hparse : parse yaml source = .ok command)
    (hfrontmatter : command.frontmatter = some frontmatter)
    (hsplit : splitFrontmatter out = .ok (some (frontmatter, body, command.lineEnding))) :
    parse yaml out = .ok ⟨some frontmatter, body, command.lineEnding⟩ := by
  unfold parse at hparse
  cases hold : splitFrontmatter source with
  | error error =>
    rw [hold] at hparse
    cases hparse
  | ok parts =>
    cases parts with
    | none =>
      rw [hold] at hparse
      rw [← Except.ok.inj hparse] at hfrontmatter
      cases hfrontmatter
    | some parts =>
      obtain ⟨old, oldBody, lineEnding⟩ := parts
      rw [hold] at hparse
      simp only at hparse
      unfold parse
      rw [hsplit]
      simp only
      split at hparse
      · cases hparse
      · next hread =>
        rw [← Except.ok.inj hparse] at hfrontmatter
        rw [← Option.some.inj hfrontmatter, hread]
      · next hread =>
        split_ifs at hparse with htrim
        rw [← Except.ok.inj hparse] at hfrontmatter
        rw [← Option.some.inj hfrontmatter, hread]
        simp only
        rw [if_pos htrim]

/-- An edit that touches no line reads back as it should when the fields to remove are not in the
front matter by another way of writing, and a body without front matter stands alone. -/
theorem roundTrip_untouched_iff (hlawful : yaml.Lawful) (hparse : parse yaml source = .ok command)
    (h : Untouched yaml command fields) :
    RoundTrip yaml source fields body ↔
      (∀ field ∈ fields, stringField yaml command.frontmatter field.1 = .ok none) ∧
        (command.frontmatter.getD [] ≠ [] ∨ opening body = none) := by
  have hlines : ∀ field ∈ fields, field.2.any breaksLine = false := by
    intro field hfield
    rw [(h field hfield).1]
    rfl
  have hrender : render yaml (some source) fields body =
      .ok (assemble command.lineEnding (command.frontmatter.getD []) body) := by
    rw [render_eq hparse hlines, h.foldlM]
    rfl
  rw [roundTrip_iff hparse hrender]
  by_cases hempty : command.frontmatter.getD [] = []
  · have hout : assemble command.lineEnding (command.frontmatter.getD []) body = body := by
      rw [hempty]
      rfl
    rw [hout, or_iff_right (not_not.mpr hempty)]
    constructor
    · rintro ⟨after, hafter, hbody, -⟩
      refine ⟨fun field _ => ?_, parse_body_iff.mp ⟨after, hafter, hbody⟩⟩
      cases hfrontmatter : command.frontmatter with
      | none => rfl
      | some frontmatter =>
        rw [hfrontmatter, Option.getD_some] at hempty
        rw [hempty]
        rfl
    · rintro ⟨-, hopening⟩
      refine ⟨_, parse_unopened hopening, rfl, fun field hfield => ?_, fun key _ => ?_⟩
      · rw [(h field hfield).1]
        rfl
      · cases hfrontmatter : command.frontmatter with
        | none => rfl
        | some frontmatter =>
          rw [hfrontmatter, Option.getD_some] at hempty
          rw [hempty]
          have hnothing : Standing yaml .lf fields [] := Standing.empty
          exact (hnothing.topLevel hlawful key).symm
  · rw [and_iff_left (.inl hempty)]
    cases hfrontmatter : command.frontmatter with
    | none =>
      rw [hfrontmatter] at hempty
      exact absurd rfl hempty
    | some frontmatter =>
      rw [hfrontmatter, Option.getD_some] at hempty
      have hunmarked := parse_unmarked hparse
      rw [hfrontmatter, Option.getD_some, linesOf, if_neg (by simpa using hempty)] at hunmarked
      have hsplit : splitFrontmatter (assemble command.lineEnding frontmatter body) =
          .ok (some (frontmatter, body, command.lineEnding)) := by
        unfold splitFrontmatter assemble
        rw [if_neg (by simpa using hempty), opening_written]
        simp only
        rw [← List.append_assoc marker, List.drop_left, splitRemainder_written hunmarked]
      have hagain := parse_same hparse hfrontmatter hsplit
      rw [Option.getD_some]
      constructor
      · rintro ⟨after, hafter, -, hset, -⟩ field hfield
        rw [hagain] at hafter
        have hfield' := hset field hfield
        rwa [← Except.ok.inj hafter, (h field hfield).1] at hfield'
      · intro hnone
        refine ⟨_, hagain, rfl, fun field hfield => ?_, fun key _ => rfl⟩
        rw [(h field hfield).1]
        exact hnone field hfield

/-- When a rendered file reads back as it should: for an edit that touches no line, and for front
matter laid out in stretches. -/
theorem render_round_trip_iff (hlawful : yaml.Lawful) (hparse : parse yaml source = .ok command) :
    (Untouched yaml command fields →
      (RoundTrip yaml source fields body ↔
        (∀ field ∈ fields, stringField yaml command.frontmatter field.1 = .ok none) ∧
          (command.frontmatter.getD [] ≠ [] ∨ opening body = none))) ∧
      (Writable fields → ∀ stretches, Editable yaml command fields stretches →
        (RoundTrip yaml source fields body ↔
          (∃ field ∈ fields, field.2.any breaksLine = true) ∨ Remains stretches fields body)) :=
  ⟨roundTrip_untouched_iff hlawful hparse, fun hwritable _ heditable =>
    roundTrip_editable_iff hlawful hparse hwritable heditable⟩

end Untouched

section Sample

/-- A line of a mapping whose values are double-quoted scalars in JSON's syntax. -/
def readLine (line : List Char) : Option (List (Value Unit × Value Unit)) :=
  if line.isEmpty || line.head? == some '#' then some []
  else
    match line.span (· != ':') with
    | (name, ':' :: ' ' :: '"' :: text) =>
      match readStr (text.length + 1) text with
      | some (value, []) => some [(.string (String.ofList name), .string (String.ofList value))]
      | _ => none
    | _ => none

def readLines (text : List Char) : Option (List (Value Unit × Value Unit)) :=
  ((pieces ['\n'] (text.filter (· != '\r'))).mapM readLine).map List.flatten

/-- YAML as far as blank lines, comments and fields with double-quoted values. -/
def quotedYaml : Yaml Unit := fun text =>
  match readLines text with
  | none => .error "could not find expected ':'"
  | some fields =>
    if (fields.map Prod.fst).Nodup then .ok (.ofFields fields) else .error "duplicate entry"

theorem readLines_append (lineEnding : LineEnding) (x y : List Char) :
    readLines (x ++ (lineEnding.text ++ y)) =
      (readLines x).bind fun a => (readLines y).map fun b => a ++ b := by
  have hfilter : (x ++ (lineEnding.text ++ y)).filter (· != '\r') =
      x.filter (· != '\r') ++ (['\n'] ++ y.filter (· != '\r')) := by
    rw [List.filter_append, List.filter_append]
    cases lineEnding <;> rfl
  unfold readLines
  rw [hfilter, pieces_append (by decide) (by decide), List.mapM_append]
  cases (pieces ['\n'] (x.filter (· != '\r'))).mapM readLine with
  | none => rfl
  | some a =>
    cases (pieces ['\n'] (y.filter (· != '\r'))).mapM readLine with
    | none => rfl
    | some b => simp

theorem readLines_nil : readLines [] = some [] := rfl

theorem readLines_lineEndings (lineEnding : LineEnding) (n : ℕ) :
    readLines (lineEndings lineEnding n) = some [] := by
  induction n with
  | zero => rfl
  | succ n ih =>
    have happend := readLines_append lineEnding [] (lineEndings lineEnding n)
    rw [List.nil_append] at happend
    rw [lineEndings, List.replicate_succ, List.flatten_cons]
    exact happend.trans (by rw [readLines_nil, ih]; rfl)

theorem readLines_fieldLine {key value : String} (hkey : PlainKey key) (hvalue : Literal value) :
    readLines (fieldLine key value) = some [(.string key, .string value)] := by
  have hbreak := isBreak_fieldLine hkey hvalue
  have hfilter : (fieldLine key value).filter (· != '\r') = fieldLine key value := by
    rw [List.filter_eq_self]
    intro c hc
    rw [bne_iff_ne]
    rintro rfl
    cases hbreak _ hc
  have hpieces : pieces ['\n'] (fieldLine key value) = [fieldLine key value] := by
    refine pieces_free fun hwithin => ?_
    cases hbreak '\n' (hwithin.subset List.mem_cons_self)
  have hname : ∀ c ∈ key.toList, (c != ':') = true := by
    intro c hc
    rw [bne_iff_ne]
    rintro rfl
    rcases hkey.2.1 _ hc with h | h
    · exact absurd h (by decide)
    · exact absurd h (by decide)
  have hspan : (fieldLine key value).span (· != ':') =
      (key.toList, ':' :: ' ' :: printStr value) := by
    rw [List.span_eq_takeWhile_dropWhile, fieldLine, List.takeWhile_append_of_pos hname,
      List.dropWhile_append_of_pos hname, List.takeWhile_cons_of_neg (by decide),
      List.dropWhile_cons_of_neg (by decide), List.append_nil]
  obtain ⟨c, rest, hline, hstarts⟩ := fieldLine_start hkey value
  have hhash : c ≠ '#' := by
    rintro rfl
    exact absurd hstarts (by decide)
  have hread : readLine (fieldLine key value) = some [(.string key, .string value)] := by
    have hopen : ((fieldLine key value).isEmpty || (fieldLine key value).head? == some '#') = false := by
      rw [hline, List.isEmpty_cons, List.head?_cons, Bool.false_or, beq_eq_false_iff_ne]
      exact fun heq => hhash (Option.some.inj heq)
    unfold readLine
    rw [hopen, if_neg Bool.false_ne_true, hspan, printStr]
    simp only
    rw [readStr_quoted value []]
    simp only [String.ofList_toList]
  rw [readLines, hfilter, hpieces, List.mapM_cons, hread]
  rfl

theorem quotedYaml_of_readLines {text : List Char} {fields : List (Value Unit × Value Unit)}
    (h : readLines text = some fields) (hnodup : (fields.map Prod.fst).Nodup) :
    quotedYaml text = .ok (.ofFields fields) := by
  simp only [quotedYaml, h]
  rw [if_pos hnodup]

theorem readLines_of_quotedYaml {text : List Char} {fields : List (Value Unit × Value Unit)}
    (h : quotedYaml text = .ok (.ofFields fields)) : readLines text = some fields := by
  unfold quotedYaml at h
  cases hread : readLines text with
  | none =>
    rw [hread] at h
    cases h
  | some found =>
    rw [hread] at h
    simp only at h
    split_ifs at h
    have hdocument := Except.ok.inj h
    rw [Document.ofFields, Document.ofFields] at hdocument
    congr 1
    cases found with
    | nil =>
      cases fields with
      | nil => rfl
      | cons field rest => cases hdocument
    | cons first others =>
      cases fields with
      | nil => cases hdocument
      | cons field rest => exact Document.mapping.inj hdocument

theorem readLines_stretch {lineEnding : LineEnding} {s : Stretch Unit}
    (h : s.Reads quotedYaml lineEnding) :
    readLines (lineEnding.text.intercalate s.lines) = some s.fields := by
  rcases h with ⟨hnone, line, hline, hfiller⟩ | hblock
  · rw [hline, List.intercalate_singleton, hnone]
    exact readLines_of_quotedYaml hfiller.read
  · have hstable := hblock.stable 0
    rw [lineEndings, List.replicate_zero, List.flatten_nil, List.append_nil] at hstable
    refine readLines_of_quotedYaml (hstable.trans ?_)
    rw [Document.ofFields, if_neg (by simpa using hblock.some_field)]

theorem quotedYaml_lawful : quotedYaml.Lawful := by
  refine ⟨fun {key value} lineEnding n hkey hvalue => ?_, fun lineEnding stretches hreads hnodup => ?_⟩
  · have hnodup : (([(.string key, .string value)] : List (Value Unit × Value Unit)).map
        Prod.fst).Nodup := List.nodup_singleton _
    refine quotedYaml_of_readLines ?_ hnodup
    cases n with
    | zero =>
      rw [lineEndings, List.replicate_zero, List.flatten_nil, List.append_nil]
      exact readLines_fieldLine hkey hvalue
    | succ n =>
      rw [lineEndings, List.replicate_succ, List.flatten_cons, readLines_append,
        readLines_fieldLine hkey hvalue]
      change (readLines (lineEndings lineEnding n)).map _ = _
      rw [readLines_lineEndings]
      rfl
  · refine quotedYaml_of_readLines ?_ hnodup
    clear hnodup
    induction stretches with
    | nil => exact readLines_nil
    | cons s rest ih =>
      have hs := readLines_stretch (hreads s List.mem_cons_self)
      have hrest := ih fun s hs => hreads s (List.mem_cons_of_mem _ hs)
      obtain ⟨line, others, hlines, -⟩ := (hreads s List.mem_cons_self).first_line
      rw [List.flatMap_cons, List.flatMap_cons]
      cases rest with
      | nil => rwa [List.flatMap_nil, List.flatMap_nil, List.append_nil, List.append_nil]
      | cons s' rest =>
        obtain ⟨line', others', hlines', -⟩ := (hreads s' (by simp)).first_line
        rw [intercalate_append (by rw [hlines]; exact List.cons_ne_nil _ _)
          (by rw [List.flatMap_cons, hlines']; exact List.cons_ne_nil _ _), readLines_append, hs,
          hrest]
        rfl

/-- A description between a comment and another field. -/
def reviewSource : List Char :=
  "---\n# review\ndescription: \"old\"\nmodel: \"opus\"\n---\nCheck the diff.".toList

def reviewStretches : List (Stretch Unit) :=
  [⟨["# review".toList], []⟩,
    ⟨[fieldLine "description" "old"], [(.string "description", .string "old")]⟩,
    ⟨[fieldLine "model" "opus"], [(.string "model", .string "opus")]⟩]

theorem reviewSource_editable :
    ∃ command, parse quotedYaml reviewSource = .ok command ∧
      Editable quotedYaml command [("description", some "new")] reviewStretches := by
  have hparse : parse quotedYaml reviewSource =
      .ok ⟨some ("# review\ndescription: \"old\"\nmodel: \"opus\"".toList),
        "Check the diff.".toList, .lf⟩ := by
    unfold reviewSource
    repeat rw [String.toList_ofList]
    rfl
  have hlines : linesOf .lf ("# review\ndescription: \"old\"\nmodel: \"opus\"".toList) =
      linesIn reviewStretches := by
    unfold reviewStretches fieldLine
    repeat rw [String.toList_ofList]
    decide
  refine ⟨_, hparse, ⟨fun s hs => ?_, by decide, fun field hfield s hs => ?_⟩, hlines⟩
  · simp only [reviewStretches, List.mem_cons, List.not_mem_nil, or_false] at hs
    rcases hs with rfl | rfl | rfl
    · exact .inl ⟨rfl, _, rfl, .inr rfl, by simp [isBreak], by rfl⟩
    · exact entry_reads quotedYaml_lawful (by decide) (by decide)
    · exact entry_reads quotedYaml_lawful (by decide) (by decide)
  · rw [List.mem_singleton.mp hfield]
    simp only [reviewStretches, List.mem_cons, List.not_mem_nil, or_false] at hs
    rcases hs with rfl | rfl | rfl
    · intro line hline
      rw [List.mem_singleton.mp hline]
      rfl
    · exact entry_shows quotedYaml_lawful (by decide) (by decide)
    · exact entry_shows quotedYaml_lawful (by decide) (by decide)

theorem render_round_trip_review :
    RoundTrip quotedYaml reviewSource [("description", some "new")] "---\nnote".toList := by
  obtain ⟨command, hparse, heditable⟩ := reviewSource_editable
  have hwritable : Writable [("description", some "new")] :=
    ⟨by decide, by simp; decide, by simp; decide⟩
  exact ((render_round_trip_iff quotedYaml_lawful hparse).2 hwritable reviewStretches heditable).mpr
    (.inr (.inl ⟨("description", some "new"), List.mem_singleton_self _, rfl⟩))

/-- The last field removed, and a body that opens like front matter. -/
theorem body_taken_for_frontmatter : ¬ RoundTrip quotedYaml
    "---\ndescription: \"old\"\n---\ntext".toList [("description", none)] "---\nnote".toList := by
  intro h
  obtain ⟨_, _, _, hafter, _⟩ := h "---\nnote".toList rfl
  cases hafter

end Sample

end VibeKanban.AgentCommands
