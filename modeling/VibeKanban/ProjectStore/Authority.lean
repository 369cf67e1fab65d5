import VibeKanban.ProjectStore.Exact
import VibeKanban.ProjectStore.Store

/-! The project file as the single authority: what holds of the files and the projection after any
sequence of calls, wherever they fail. -/
namespace VibeKanban.ProjectStore
open Lib

section
variable {F : DocumentCodec}

abbrev StoreEvent (F : DocumentCodec) := Tx.Event (Stmt.Answer F) Call (Files F.Content)
abbrev StoreView (F : DocumentCodec) := Tx.View (Stmt.Answer F) Call Database (Files F.Content)

/-- The directory holds the document: it is what is read there, or what was written. -/
def Holds (files : Files F.Content) (root : String) (d : ProjectDocument) : Prop :=
  ∃ content, files.documents root = some content ∧ (F.decode content = .ok d ∨ content = F.encode d)

/-- The content is a valid document as a whole: what it reads as, or what was written and nests too
deep to be read. -/
def Complete (content : F.Content) : Prop :=
  ∃ d, d.validate = .ok () ∧
    (F.decode content = .ok d ∨ content = F.encode d ∧ ¬ d.Legible)

theorem complete_encode {d : ProjectDocument} (hvalid : d.validate = .ok ()) :
    Complete (F.encode d) := by
  by_cases hlegible : d.Legible
  · obtain ⟨d', hdecode, hvalid', _⟩ := F.readBack d hvalid hlegible
    exact ⟨d', hvalid', Or.inl hdecode⟩
  · exact ⟨d, hvalid, Or.inr ⟨rfl, hlegible⟩⟩

/-- The temporary file and the directory of a publication. -/
def published? (e : StoreEvent F) : Option (ℕ × String) :=
  match e.statement with
  | ⟨.persist temporary root _, .ok _⟩ => some (temporary, root)
  | _ => none

/-- The document is what the call makes of the old one, with the next revision. -/
def Call.Raises : Call → ProjectDocument → ProjectDocument → Prop
  | .mutate _ _ change now, old, d => ∃ changed, change old = .ok changed ∧
    d = { changed with
      revision := old.revision + 1
      project := { changed.project with updatedAt := now } }
  | .insertTask _ request fresh now _, old, d => ∃ id inserted,
    old.insertTask request fresh now = .ok (id, inserted) ∧
      d = { inserted with revision := old.revision + 1 }
  | _, _, _ => False

/-- Every publication is of a valid document: the first one of a directory without a document, or
what the call makes of the document it finds there. -/
def WellPublished (e : StoreEvent F) : Prop :=
  ∀ temporary root, published? e = some (temporary, root) →
    ∃ d, e.before.temporaries temporary = some (F.encode d) ∧ d.validate = .ok () ∧
      ((e.before.documents root = none ∧ d.revision = 1) ∨
        ∃ old, Holds e.before root old ∧ e.call.Raises old d)

/-- The documents that publications have left. -/
def replay (initial : String → Option F.Content) : List (StoreEvent F) → String → Option F.Content
  | [] => initial
  | e :: older =>
    match published? e with
    | some (temporary, root) =>
      Function.update (replay initial older) root (e.before.temporaries temporary)
    | none => replay initial older

variable (initial : String → Option F.Content)

/-- What holds between two calls. -/
structure Inv (x : StoreView F) : Prop where
  keys : x.work.Keys
  valid : ∀ root content, x.outside.documents root = some content → Complete content
  published : ∀ e ∈ x.history, WellPublished e
  documents : x.outside.documents = replay initial x.history

/-- What holds inside a call: the durable state is in order, and as it was if nothing has been
published. -/
structure Mid (start x : StoreView F) : Prop where
  inv : Inv initial ⟨start.work, x.outside, x.history⟩
  keys : x.work.Keys
  quiet : ∃ recent, x.history = recent ++ start.history ∧
    ((∀ e ∈ recent, published? e = none) → x.outside.documents = start.outside.documents)

/-- The directory is registered for the project. -/
def Registered (canonicalize : String → Option String) (db : Database) (id : Uuid) (root : String) :
    Prop :=
  ∃ m ∈ db.mounts, m.projectId = id ∧
    (m.directoryPath = root ∨ canonicalize m.directoryPath = some root)

/-- A call returns with its document on disk and in its tables; a read with the document of its
project from the registered directory. -/
def Done (c : Call) (r : String × ProjectDocument) (x : StoreView F) : Prop :=
  x.work.Shows r.2 ∧ Holds x.outside r.1 r.2 ∧ ∀ canonicalize id, c = .read canonicalize id →
    r.2.project.id = id ∧ Registered canonicalize x.work id r.1

variable {initial}

theorem Mid.silent {start x y : StoreView F} (h : Mid initial start x) {e : StoreEvent F}
    (hhistory : y.history = e :: x.history) (he : published? e = none)
    (hdocuments : y.outside.documents = x.outside.documents) (hkeys : y.work.Keys) :
    Mid initial start y := by
  obtain ⟨recent, hrecent, hquiet⟩ := h.quiet
  refine ⟨⟨h.inv.keys, ?_, ?_, ?_⟩, hkeys, e :: recent, ?_, ?_⟩
  · rw [hdocuments]
    exact h.inv.valid
  · rw [hhistory]
    refine List.forall_mem_cons.mpr ⟨?_, h.inv.published⟩
    intro temporary root hpublished
    rw [he] at hpublished
    cases hpublished
  · rw [hdocuments, hhistory, replay, he]
    exact h.inv.documents
  · rw [hhistory, hrecent, List.cons_append]
  · intro hall
    rw [hdocuments]
    exact hquiet fun e' he' => hall e' (List.mem_cons_of_mem _ he')

theorem Mid.publish {start x y : StoreView F} (h : Mid initial start x) {e : StoreEvent F}
    {temporary : ℕ} {root : String} {d : ProjectDocument}
    (hhistory : y.history = e :: x.history) (he : published? e = some (temporary, root))
    (hbefore : e.before = x.outside) (hwell : WellPublished e) (hvalid : d.validate = .ok ())
    (hcontent : x.outside.temporaries temporary = some (F.encode d))
    (hdocuments : y.outside.documents =
      Function.update x.outside.documents root (some (F.encode d)))
    (hkeys : y.work.Keys) : Mid initial start y := by
  obtain ⟨recent, hrecent, _⟩ := h.quiet
  refine ⟨⟨h.inv.keys, ?_, ?_, ?_⟩, hkeys, e :: recent, ?_, ?_⟩
  · intro root' content hmem
    rw [hdocuments] at hmem
    by_cases hroot : root' = root
    · rw [hroot, Function.update_self] at hmem
      cases hmem
      exact complete_encode hvalid
    · rw [Function.update_of_ne hroot] at hmem
      exact h.inv.valid root' content hmem
  · rw [hhistory]
    exact List.forall_mem_cons.mpr ⟨hwell, h.inv.published⟩
  · rw [hdocuments, hhistory, replay, he]
    dsimp only
    rw [hbefore, hcontent, ← h.inv.documents]
  · rw [hhistory, hrecent, List.cons_append]
  · intro hall
    have hnone := hall e List.mem_cons_self
    rw [he] at hnone
    cases hnone

section Rules
variable (initial) (c : Call) (start : StoreView F) {α β : Type}

/-- The outcome of a part of a call: the state is in order, and a value meets `G`. -/
def Good (G : α → StoreView F → Prop) (r : Except ApiError α) (y : StoreView F) : Prop :=
  Mid initial start y ∧ match r with
    | .ok a => G a y
    | .error _ => True

/-- The part of the call keeps the state in order and ends well. -/
def Ensures (p : StoreProg F α) (G : α → StoreView F → Prop) (x : StoreView F) : Prop :=
  Prog.wp (fun _ => Mid initial start) (Tx.stepView (exec F) c) p (Good initial start G) x

variable {initial c start} {G G' : α → StoreView F → Prop} {x : StoreView F}

theorem ensures_bind {p : StoreProg F α} {f : α → StoreProg F β} {H : β → StoreView F → Prop}
    (hp : Ensures initial c start p G x)
    (hf : ∀ a y, Mid initial start y → G a y → Ensures initial c start (f a) H y) :
    Ensures initial c start (p >>= f) H x := by
  refine Prog.wp_bind.mpr (Prog.wp_mono ?_ hp)
  rintro r y ⟨hy, hr⟩
  cases r with
  | ok a => exact hf a y hy hr
  | error e => exact ⟨hy, trivial⟩

theorem ensures_mono {p : StoreProg F α} (hp : Ensures initial c start p G x)
    (h : ∀ a y, G a y → G' a y) : Ensures initial c start p G' x := by
  refine Prog.wp_mono ?_ hp
  rintro r y ⟨hy, hr⟩
  cases r with
  | ok a => exact ⟨hy, h a y hr⟩
  | error e => exact ⟨hy, trivial⟩

theorem ensures_return {a : α} (hx : Mid initial start x) (h : G a x) :
    Ensures initial c start (pure a) G x := ⟨hx, h⟩

theorem ensures_refuse {e : ApiError} (hx : Mid initial start x) :
    Ensures initial c start (refuse e) G x := ⟨hx, trivial⟩

theorem ensures_ofExcept {r : Except ApiError α} (hx : Mid initial start x)
    (h : ∀ a, r = .ok a → G a x) : Ensures initial c start (Prog.ofExcept r) G x := by
  refine Prog.wp_ofExcept.mpr ⟨hx, ?_⟩
  cases r with
  | ok a => exact h a rfl
  | error e => trivial

theorem ensures_stmt {s : Stmt F} {k : Stmt.Answer F s → StoreProg F α} (hx : Mid initial start x)
    (h : ∀ a y, Tx.stepView (exec F) c s x a y → Ensures initial c start (k a) G y) :
    Ensures initial c start (Prog.stmt s >>= k) G x := ⟨hx, h⟩

theorem ensures_ok {a : α} (hx : Mid initial start x) (h : G a x) :
    Ensures initial c start (Prog.ofExcept (.ok a)) G x := ⟨hx, h⟩

theorem ensures_error {e : ApiError} (hx : Mid initial start x) :
    Ensures initial c start (Prog.ofExcept (.error e) : StoreProg F α) G x := ⟨hx, trivial⟩

theorem query_spec (hx : Mid initial start x) :
    Ensures initial c start query
      (fun db y => db = x.work ∧ y.work = x.work ∧ y.outside = x.outside) x := by
  refine ensures_stmt hx ?_
  rintro a ⟨work, outside, history⟩ ⟨hstep, hhistory⟩
  cases hstep with
  | query =>
    exact ensures_ok (hx.silent hhistory rfl rfl hx.keys) ⟨rfl, rfl, rfl⟩
  | queryFails =>
    exact ensures_error (hx.silent hhistory rfl rfl hx.keys)

theorem sql_spec {f : Database → Except ApiError Database} (hx : Mid initial start x)
    (hf : ∀ db, f x.work = .ok db → db.Keys) :
    Ensures initial c start (sql f)
      (fun _ y => f x.work = .ok y.work ∧ y.outside = x.outside) x := by
  refine ensures_stmt hx ?_
  rintro a ⟨work, outside, history⟩ ⟨hstep, hhistory⟩
  cases hstep with
  | sql _ hok =>
    exact ensures_ok (hx.silent hhistory rfl rfl (hf _ hok)) ⟨hok, rfl⟩
  | sqlRefused _ hrefused =>
    exact ensures_error (hx.silent hhistory rfl rfl hx.keys)
  | sqlFails =>
    exact ensures_error (hx.silent hhistory rfl rfl hx.keys)

theorem readFile_spec {root : String} (hx : Mid initial start x) :
    Ensures initial c start (readFile root)
      (fun content y => content = x.outside.documents root ∧ y.work = x.work ∧
        y.outside = x.outside) x := by
  refine ensures_stmt hx ?_
  rintro a ⟨work, outside, history⟩ ⟨hstep, hhistory⟩
  cases hstep with
  | readFile =>
    exact ensures_ok (hx.silent hhistory rfl rfl hx.keys) ⟨rfl, rfl, rfl⟩
  | readFails =>
    exact ensures_error (hx.silent hhistory rfl rfl hx.keys)

theorem writeTemporary_spec {content : F.Content} (hx : Mid initial start x) :
    Ensures initial c start (writeTemporary content)
      (fun i y => y.work = x.work ∧ y.outside.documents = x.outside.documents ∧
        y.outside.temporaries i = some content) x := by
  refine ensures_stmt hx ?_
  rintro a ⟨work, outside, history⟩ ⟨hstep, hhistory⟩
  cases hstep with
  | write _ hfresh =>
    exact ensures_ok (hx.silent hhistory rfl rfl hx.keys) ⟨rfl, rfl, Function.update_self ..⟩
  | writeFails =>
    exact ensures_error (hx.silent hhistory rfl rfl hx.keys)

/-- A publication of what the call is allowed to publish. -/
theorem persist_spec {temporary : ℕ} {root : String} {noclobber : Bool} {d : ProjectDocument}
    (hx : Mid initial start x) (hvalid : d.validate = .ok ())
    (hcontent : x.outside.temporaries temporary = some (F.encode d))
    (hcreate : noclobber = true → d.revision = 1)
    (hchange : noclobber = false → ∃ old, Holds x.outside root old ∧ c.Raises old d) :
    Ensures initial c start (persist temporary root noclobber)
      (fun _ y => y.work = x.work ∧ Holds y.outside root d) x := by
  refine ensures_stmt hx ?_
  rintro a ⟨work, outside, history⟩ ⟨hstep, hhistory⟩
  cases hstep with
  | persist _ hstaged habsent =>
    rw [hcontent] at hstaged
    cases hstaged
    have hwell : WellPublished ⟨c, ⟨.persist temporary root noclobber, .ok ()⟩, x.outside⟩ := by
      intro temporary' root' hpublished
      cases hpublished
      refine ⟨d, hcontent, hvalid, ?_⟩
      cases noclobber with
      | true => exact Or.inl ⟨habsent rfl, hcreate rfl⟩
      | false => exact Or.inr (hchange rfl)
    refine ensures_ok ?_ ⟨rfl, F.encode d, Function.update_self .., Or.inr rfl⟩
    exact hx.publish hhistory rfl rfl hwell hvalid hcontent rfl hx.keys
  | persistFails =>
    exact ensures_error (hx.silent hhistory rfl rfl hx.keys)

theorem readPath_spec {root : String} (hx : Mid initial start x) :
    Ensures initial c start (readPath root)
      (fun d y => (∃ content, x.outside.documents root = some content ∧
          F.decode content = .ok d) ∧ d.validate = .ok () ∧
        y.work = x.work ∧ y.outside = x.outside) x := by
  refine ensures_bind (readFile_spec hx) ?_
  rintro found y hy ⟨hfound, hwork, hfiles⟩
  cases found with
  | none => exact ensures_refuse hy
  | some content =>
    dsimp only
    split_ifs
    · exact ensures_refuse hy
    · cases hdecode : F.decode content with
      | error message => exact ensures_refuse hy
      | ok d =>
        refine ensures_bind (ensures_ofExcept (G := fun _ z => d.validate = .ok () ∧ z = y) hy ?_) ?_
        · exact fun _ hvalid => ⟨hvalid, rfl⟩
        · rintro _ z hz ⟨hvalid, rfl⟩
          exact ensures_return hz ⟨⟨content, hfound.symm, hdecode⟩, hvalid, hwork, hfiles⟩

theorem stage_spec {root : String} {d : ProjectDocument} {expected : Option ℤ}
    (hx : Mid initial start x) :
    Ensures initial c start (stage root d expected)
      (fun prepared y => prepared.destination = root ∧ prepared.expectedRevision = expected ∧
        d.validate = .ok () ∧ y.work = x.work ∧ y.outside.documents = x.outside.documents ∧
        y.outside.temporaries prepared.temporary = some (F.encode d)) x := by
  refine ensures_bind (ensures_ofExcept (G := fun _ z => d.validate = .ok () ∧ z = x) hx ?_) ?_
  · exact fun _ hvalid => ⟨hvalid, rfl⟩
  · rintro _ y hy ⟨hvalid, rfl⟩
    dsimp only
    split_ifs
    · exact ensures_refuse hy
    · refine ensures_bind (writeTemporary_spec hy) ?_
      rintro i z hz ⟨hwork, hdocuments, hcontent⟩
      exact ensures_return hz ⟨rfl, rfl, hvalid, hwork, hdocuments, hcontent⟩

section Publish
variable {prepared : PreparedDocument} {d : ProjectDocument}

/-- The first document of a directory. -/
theorem publish_new_spec (hx : Mid initial start x) (hvalid : d.validate = .ok ())
    (hexpected : prepared.expectedRevision = none) (hrevision : d.revision = 1)
    (hcontent : x.outside.temporaries prepared.temporary = some (F.encode d)) :
    Ensures initial c start prepared.publish
      (fun _ y => y.work = x.work ∧ Holds y.outside prepared.destination d) x := by
  unfold PreparedDocument.publish
  rw [hexpected]
  exact persist_spec hx hvalid hcontent (fun _ => hrevision) nofun

/-- The next document of a directory. -/
theorem publish_next_spec (hx : Mid initial start x) (hvalid : d.validate = .ok ())
    {revision : ℤ} (hexpected : prepared.expectedRevision = some revision)
    (hcontent : x.outside.temporaries prepared.temporary = some (F.encode d))
    {old : ProjectDocument} (hold : Holds x.outside prepared.destination old)
    (hraises : c.Raises old d) :
    Ensures initial c start prepared.publish
      (fun _ y => y.work = x.work ∧ Holds y.outside prepared.destination d) x := by
  unfold PreparedDocument.publish
  rw [hexpected]
  refine ensures_bind (readPath_spec hx) ?_
  rintro current y hy ⟨_, _, hwork, hfiles⟩
  split_ifs
  · exact ensures_refuse hy
  · rw [← hfiles] at hcontent hold
    refine ensures_mono (persist_spec hy hvalid hcontent nofun fun _ => ⟨old, hold, hraises⟩) ?_
    rintro _ z ⟨hz, hholds⟩
    exact ⟨hz.trans hwork, hholds⟩

end Publish

end Rules

section Tables
variable {canonicalize : String → Option String} {db db' : Database} {d : ProjectDocument}

/-- Registration leaves the projected tables alone. -/
theorem registerIn_frame {root : String} (h : registerIn canonicalize root d db = .ok db') :
    ∃ projects mounts scratch, db' = { db with projects, mounts, scratch } := by
  obtain ⟨_, _, h⟩ := except_bind_iff.mp h
  dsimp only at h
  split at h
  · obtain ⟨_, _, h⟩ := except_bind_iff.mp h
    obtain ⟨_, _, h⟩ := except_bind_iff.mp h
    exact ⟨_, _, _, (Except.ok.inj h).symm⟩
  · obtain ⟨_, _, h⟩ := except_bind_iff.mp h
    obtain ⟨_, _, h⟩ := except_bind_iff.mp h
    exact ⟨_, _, _, (Except.ok.inj h).symm⟩

theorem registerIn_keys {root : String} (hkeys : db.Keys)
    (h : registerIn canonicalize root d db = .ok db') : db'.Keys := by
  obtain ⟨projects, mounts, scratch, rfl⟩ := registerIn_frame h
  exact ⟨hkeys.1, hkeys.2, hkeys.3, hkeys.4, hkeys.5, hkeys.6, hkeys.7⟩

theorem registerIn_registered {root : String}
    (h : registerIn canonicalize root d db = .ok db') :
    Registered canonicalize db' d.project.id root := by
  obtain ⟨_, _, h⟩ := except_bind_iff.mp h
  dsimp only at h
  split at h
  next mount hfind =>
    obtain ⟨_, hroot, h⟩ := except_bind_iff.mp h
    obtain ⟨_, _, h⟩ := except_bind_iff.mp h
    have hmem := List.mem_of_find?_eq_some hfind
    have hid : mount.projectId = d.project.id := by simpa using List.find?_some hfind
    have hpath : mount.directoryPath = root := by simpa using ensure_ok.mp hroot
    cases h
    refine ⟨mount, ?_, hid, Or.inl hpath⟩
    rw [if_pos (List.any_eq_true.mpr ⟨mount, hmem, by simpa using hid⟩)]
    exact hmem
  next hfind =>
    obtain ⟨_, _, h⟩ := except_bind_iff.mp h
    obtain ⟨_, _, h⟩ := except_bind_iff.mp h
    cases h
    refine ⟨⟨d.project.id, root, 0⟩, ?_, rfl, Or.inl rfl⟩
    have hnone : ¬ (db.mounts.any fun m => m.projectId = d.project.id) = true := by
      rw [List.any_eq_true]
      rintro ⟨m, hm, hid⟩
      exact List.find?_eq_none.mp hfind m hm hid
    rw [if_neg hnone]
    simp

/-- The projection keeps the mounts. -/
theorem projectIn_registered {root : String} {id : Uuid} (hkeys : db.Keys)
    (h : projectIn d db = .ok db') (hregistered : Registered canonicalize db id root) :
    Registered canonicalize db' id root := by
  obtain ⟨hvalid, w, hrewrite, _, rfl⟩ := projectIn_ok.mp h
  have hd := ProjectDocument.validate_ok hvalid
  obtain ⟨db₁, db₂, hstages⟩ := (rewrite_ok hd.distinctIds).mp hrewrite
  obtain ⟨m, hm, hid, hroot⟩ := hregistered
  rw [← (hstages.written hd hkeys).mounts] at hm
  exact exists_mem_updateWhere (fun _ hkept => hkept) hm ⟨hid, hroot⟩

theorem legacyIn_revision {id : Uuid} (h : legacyIn db id = .ok d) : d.revision = 1 := by
  unfold legacyIn at h
  split at h
  · cases h
  · obtain ⟨_, _, h⟩ := except_bind_iff.mp h
    cases h
    rfl

theorem openedDocument_revision {request : CreateProjectRequest} {fresh : ℕ → Uuid} {now : DateTime}
    (h : openedDocument db request fresh now = .ok d) : d.revision = 1 := by
  unfold openedDocument at h
  split at h
  · split_ifs at h
    · exact legacyIn_revision h
    · cases h
      rfl
  · cases h
    rfl

theorem insertTask_revision {request : CreateTaskRequest} {fresh id : Uuid} {now : DateTime}
    {inserted : ProjectDocument} (h : d.insertTask request fresh now = .ok (id, inserted)) :
    inserted.revision = d.revision := by
  unfold ProjectDocument.insertTask at h
  dsimp only at h
  split at h
  · split_ifs at h
    cases h
    rfl
  · split_ifs at h
    cases h
    rfl

end Tables

section Calls
variable {initial : String → Option F.Content} {c : Call} {start x : StoreView F}
  {canonicalize : String → Option String}

/-- The end of an adoption or an opening: the rows are written, and a new document is published. -/
theorem install_spec {root : String} {d : ProjectDocument} {found : Bool}
    (hx : Mid initial start x) (hfound : found = true → Holds x.outside root d)
    (hnew : found = false → d.revision = 1) :
    Ensures initial c start (install canonicalize root d found)
      (fun r y => r = (root, d) ∧ y.work.Shows d ∧ Holds y.outside root d ∧
        Registered canonicalize y.work d.project.id root) x := by
  refine ensures_bind (sql_spec hx fun db h => registerIn_keys hx.keys h) ?_
  rintro _ y hy ⟨hregister, hyFiles⟩
  refine ensures_bind (sql_spec hy fun db h => (projectIn_shows hy.keys h).2) ?_
  rintro _ z hz ⟨hproject, hzFiles⟩
  have hshows := (projectIn_shows hy.keys hproject).1
  have hregistered := projectIn_registered hy.keys hproject (registerIn_registered hregister)
  have hvalid := (projectIn_ok.mp hproject).1
  cases found with
  | true =>
    refine ensures_return hz ⟨rfl, hshows, ?_, hregistered⟩
    rw [hzFiles, hyFiles]
    exact hfound rfl
  | false =>
    refine ensures_bind (stage_spec hz) ?_
    rintro prepared w hw ⟨hroot, hexpected, _, hwork, _, hcontent⟩
    refine ensures_bind (publish_new_spec hw hvalid hexpected (hnew rfl) hcontent) ?_
    rintro _ v hv ⟨hvWork, hholds⟩
    rw [← hwork, ← hvWork] at hshows hregistered
    refine ensures_return hv ⟨rfl, hshows, ?_, hregistered⟩
    rw [← hroot]
    exact hholds

/-- Take the document that is there, or else the one the rows give. -/
theorem documentOf_spec {root : String} {found : Bool} {other : Except ApiError ProjectDocument}
    (hx : Mid initial start x) (hother : ∀ d, other = .ok d → d.revision = 1) :
    Ensures initial c start (documentOf root found other)
      (fun d y => y.work = x.work ∧ y.outside = x.outside ∧
        (found = true → Holds x.outside root d) ∧ (found = false → d.revision = 1)) x := by
  cases found with
  | true =>
    refine ensures_mono (readPath_spec hx) ?_
    rintro d y ⟨⟨content, hcontent, hdecode⟩, _, hwork, hfiles⟩
    exact ⟨hwork, hfiles, fun _ => ⟨content, hcontent, Or.inl hdecode⟩, nofun⟩
  | false =>
    refine ensures_ofExcept hx ?_
    exact fun d hd => ⟨rfl, rfl, nofun, fun _ => hother d hd⟩

theorem adoptIn_spec {id : Uuid} (hx : Mid initial start x) :
    Ensures initial c start (adoptIn canonicalize id)
      (fun r y => Holds y.outside r.1 r.2 ∧ r.2.project.id = id ∧
        Registered canonicalize y.work id r.1) x := by
  unfold adoptIn
  split_ifs
  · exact ensures_refuse hx
  · refine ensures_bind (query_spec hx) ?_
    rintro db y hy -
    refine ensures_bind (ensures_ofExcept (G := fun _ _ => True) hy fun _ _ => trivial) ?_
    rintro path y hy -
    split_ifs
    · exact ensures_refuse hy
    · cases canonicalize path with
      | none => exact ensures_refuse hy
      | some root =>
        refine ensures_bind (readFile_spec hy) ?_
        rintro content y hy -
        refine ensures_bind (documentOf_spec hy fun d hd => legacyIn_revision hd) ?_
        rintro d z hz ⟨_, hfiles, hfound, hnew⟩
        split_ifs with hid
        · exact ensures_refuse hz
        · rw [← hfiles] at hfound
          refine ensures_mono (install_spec hz hfound hnew) ?_
          rintro _ w ⟨rfl, _, hholds, hregistered⟩
          rw [not_not.mp hid] at hregistered
          exact ⟨hholds, not_not.mp hid, hregistered⟩

theorem loadIn_spec {id : Uuid} (hx : Mid initial start x) :
    Ensures initial c start (loadIn canonicalize id)
      (fun r y => Holds y.outside r.1 r.2 ∧ r.2.project.id = id ∧
        Registered canonicalize y.work id r.1) x := by
  unfold loadIn
  refine ensures_bind (query_spec hx) ?_
  rintro db y hy ⟨rfl, hwork, _⟩
  split
  next => exact adoptIn_spec hy
  next mount hfind =>
    split
    next => exact ensures_refuse hy
    next root hroot =>
      refine ensures_bind (readPath_spec hy) ?_
      rintro d z hz ⟨⟨content, hcontent, hdecode⟩, _, hzWork, hfiles⟩
      split_ifs with hid
      · exact ensures_refuse hz
      · rw [← hfiles] at hcontent
        refine ensures_return hz ⟨⟨content, hcontent, Or.inl hdecode⟩, not_not.mp hid, mount, ?_⟩
        rw [hzWork, hwork]
        exact ⟨List.mem_of_find?_eq_some hfind, by simpa using List.find?_some hfind,
          Or.inr hroot⟩

theorem read_spec {id : Uuid} (hc : c = .read canonicalize id) (hx : Mid initial start x) :
    Ensures initial c start (read canonicalize id) (Done c) x := by
  refine ensures_bind (loadIn_spec hx) ?_
  rintro ⟨root, d⟩ y hy ⟨hholds, hid, hregistered⟩
  refine ensures_bind (sql_spec hy fun db h => (projectIn_shows hy.keys h).2) ?_
  rintro _ z hz ⟨hproject, hfiles⟩
  refine ensures_return hz ⟨(projectIn_shows hy.keys hproject).1, ?_, ?_⟩
  · rw [hfiles]
    exact hholds
  · rw [hc]
    rintro _ _ ⟨rfl, rfl⟩
    exact ⟨hid, projectIn_registered hy.keys hproject hregistered⟩

/-- The end of a change: the rows are written and the next document is staged. -/
theorem ensures_stage_next {β : Type} {root : String} {d : ProjectDocument} {expected : Option ℤ}
    {k : PreparedDocument → StoreProg F β} {H : β → StoreView F → Prop} (hx : Mid initial start x)
    (hk : ∀ prepared y, Mid initial start y → prepared.destination = root →
      prepared.expectedRevision = expected → d.validate = .ok () → y.work.Shows d →
      y.outside.documents = x.outside.documents →
      y.outside.temporaries prepared.temporary = some (F.encode d) →
      Ensures initial c start (k prepared) H y) :
    Ensures initial c start (do
      Prog.ofExcept d.validate
      sql (projectIn d)
      let prepared ← stage root d expected
      k prepared) H x := by
  refine ensures_bind (ensures_ofExcept (G := fun _ y => y = x) hx fun _ _ => rfl) ?_
  rintro _ y hy rfl
  refine ensures_bind (sql_spec hy fun db h => (projectIn_shows hy.keys h).2) ?_
  rintro _ z hz ⟨hproject, hfiles⟩
  refine ensures_bind (stage_spec hz) ?_
  rintro prepared w hw ⟨hroot, hexpected, hvalid, hwork, hdocuments, hcontent⟩
  refine hk prepared w hw hroot hexpected hvalid ?_ ?_ hcontent
  · rw [hwork]
    exact (projectIn_shows hy.keys hproject).1
  · rw [hdocuments, hfiles]

theorem holds_of_documents {files files' : Files F.Content} {root : String} {d : ProjectDocument}
    (h : Holds files root d) (heq : files'.documents = files.documents) : Holds files' root d := by
  unfold Holds
  rw [heq]
  exact h

theorem nextRevision_ok {revision next : ℤ} (h : nextRevision revision = .ok next) :
    next = revision + 1 := by
  unfold nextRevision at h
  split_ifs at h
  exact (Except.ok.inj h).symm

theorem mutate_spec {id : Uuid} {change : ProjectDocument → Except ApiError ProjectDocument}
    {now : DateTime} (hc : c = .mutate canonicalize id change now) (hx : Mid initial start x) :
    Ensures initial c start (mutate canonicalize id change now) (Done c) x := by
  refine ensures_bind (loadIn_spec hx) ?_
  rintro ⟨root, old⟩ y hy ⟨hholds, _⟩
  refine ensures_bind (ensures_ofExcept (G := fun changed z => change old = .ok changed ∧ z = y)
    hy fun _ h => ⟨h, rfl⟩) ?_
  rintro changed z hz ⟨hchange, rfl⟩
  refine ensures_bind (ensures_ofExcept (G := fun r y => r = old.revision + 1 ∧ y = z) hz
    fun _ h => ⟨nextRevision_ok h, rfl⟩) ?_
  rintro _ y hy ⟨rfl, rfl⟩
  refine ensures_stage_next hy ?_
  intro prepared z hz hroot hexpected hvalid hshows hdocuments hcontent
  have hold := holds_of_documents hholds hdocuments
  rw [← hroot] at hold
  refine ensures_bind (publish_next_spec hz hvalid hexpected hcontent hold ?_) ?_
  · rw [hc]
    exact ⟨changed, hchange, rfl⟩
  · rintro _ w hw ⟨hwork, hnew⟩
    refine ensures_return hw ⟨?_, ?_, ?_⟩
    · rw [hwork]
      exact hshows
    · rw [← hroot]
      exact hnew
    · rw [hc]
      exact nofun

/-- What `insert_task_in` hands to its caller. -/
theorem insertTaskIn_spec {request : CreateTaskRequest} {fresh : Uuid} {now : DateTime}
    {accept : Database → Except ApiError (List Uuid × List Uuid)}
    (hc : c = .insertTask canonicalize request fresh now accept) (hx : Mid initial start x) :
    Ensures initial c start (insertTaskIn canonicalize request fresh now)
      (fun (root, next, prepared) y => next.validate = .ok () ∧ y.work.Shows next ∧
        prepared.destination = root ∧
        y.outside.temporaries prepared.temporary = some (F.encode next) ∧
        (∃ revision, prepared.expectedRevision = some revision) ∧
        ∃ old, Holds y.outside root old ∧ c.Raises old next) x := by
  refine ensures_bind (loadIn_spec hx) ?_
  rintro ⟨root, old⟩ y hy ⟨hholds, _⟩
  refine ensures_bind (ensures_ofExcept
    (G := fun r z => old.insertTask request fresh now = .ok r ∧ z = y) hy fun _ h => ⟨h, rfl⟩) ?_
  rintro ⟨id, inserted⟩ z hz ⟨hinsert, rfl⟩
  refine ensures_bind (ensures_ofExcept (G := fun r y => r = old.revision + 1 ∧ y = z) hz ?_) ?_
  · intro r hr
    rw [nextRevision_ok hr, insertTask_revision hinsert]
    exact ⟨rfl, rfl⟩
  · rintro _ y hy ⟨rfl, rfl⟩
    refine ensures_stage_next hy ?_
    intro prepared z hz hroot hexpected hvalid hshows hdocuments hcontent
    refine ensures_return hz ⟨hvalid, hshows, hroot, hcontent, ⟨_, hexpected⟩, old, ?_, ?_⟩
    · exact holds_of_documents hholds hdocuments
    · rw [hc]
      exact ⟨id, inserted, hinsert, rfl⟩

theorem insertTask_spec {request : CreateTaskRequest} {fresh : Uuid} {now : DateTime}
    {accept : Database → Except ApiError (List Uuid × List Uuid)}
    (hc : c = .insertTask canonicalize request fresh now accept) (hx : Mid initial start x) :
    Ensures initial c start (insertTask canonicalize request fresh now accept) (Done c) x := by
  -- The caller's rows are not part of the projection.
  have haccept {db db' : Database} (h : (do
      let accepted ← accept db
      return { db with executions := accepted.1, prepared := accepted.2 }) = Except.ok db') :
      ∃ executions prepared, db' = { db with executions, prepared } := by
    obtain ⟨accepted, _, h⟩ := except_bind_iff.mp h
    exact ⟨accepted.1, accepted.2, (Except.ok.inj h).symm⟩
  refine ensures_bind (insertTaskIn_spec hc hx) ?_
  rintro ⟨root, next, prepared⟩ y hy ⟨hvalid, hshows, hroot, hcontent, ⟨r, hexpected⟩, old, hold, hraises⟩
  refine ensures_bind (sql_spec hy ?_) ?_
  · intro db h
    obtain ⟨executions, held, rfl⟩ := haccept h
    have hkeys := hy.keys
    exact ⟨hkeys.1, hkeys.2, hkeys.3, hkeys.4, hkeys.5, hkeys.6, hkeys.7⟩
  · rintro _ z hz ⟨hwork, hfiles⟩
    obtain ⟨executions, held, heq⟩ := haccept hwork
    have hshown : z.work.Shows next := by
      rw [heq]
      exact ⟨hshows.1, hshows.2, hshows.3, hshows.4, hshows.5, hshows.6, hshows.7⟩
    rw [← hfiles] at hcontent hold
    rw [← hroot] at hold
    refine ensures_bind (publish_next_spec hz hvalid hexpected hcontent hold hraises) ?_
    rintro _ w hw ⟨hwork, hnew⟩
    refine ensures_return hw ⟨?_, ?_, ?_⟩
    · rw [hwork]
      exact hshown
    · rw [← hroot]
      exact hnew
    · rw [hc]
      exact nofun

theorem openProject_spec {isDir : String → Bool} {directory : String}
    {request : CreateProjectRequest} {fresh : ℕ → Uuid} {now : DateTime}
    (hc : c = .openProject canonicalize isDir directory request fresh now)
    (hx : Mid initial start x) :
    Ensures initial c start (openProject canonicalize isDir directory request fresh now) (Done c)
      x := by
  unfold openProject
  split_ifs
  · exact ensures_refuse hx
  · cases canonicalize directory with
    | none => exact ensures_refuse hx
    | some root =>
      dsimp only
      split_ifs
      · exact ensures_refuse hx
      · refine ensures_bind (readFile_spec hx) ?_
        rintro content y hy -
        refine ensures_bind (query_spec hy) ?_
        rintro db z hz -
        split_ifs
        · exact ensures_refuse hz
        · refine ensures_bind (documentOf_spec hz fun d hd => openedDocument_revision hd) ?_
          rintro d w hw ⟨_, hfiles, hfound, hnew⟩
          rw [← hfiles] at hfound
          refine ensures_mono (install_spec hw hfound hnew) ?_
          rintro _ v ⟨rfl, hshows, hholds, _⟩
          refine ⟨hshows, hholds, ?_⟩
          rw [hc]
          exact nofun

end Calls

section Runs
variable {initial : String → Option F.Content}

abbrev StoreWorld (F : DocumentCodec) :=
  Tx.Shared (Stmt F) (Stmt.Answer F) ApiError (String × ProjectDocument) Call Database
    (Files F.Content)

theorem Ensures.keeps {c : Call} {start x : StoreView F}
    {p : StoreProg F (String × ProjectDocument)} (h : Ensures initial c start p (Done c) x) :
    Tx.Keeps (exec F) (Mid initial) Done c start p x := by
  refine Prog.wp_mono ?_ h
  rintro r y ⟨hy, hr⟩
  cases r with
  | ok a => exact ⟨hy, hr⟩
  | error e => exact ⟨hy, trivial⟩

/-- Every call keeps to the rules, wherever it stops. -/
theorem body_keeps (c : Call) (x : StoreView F) (hx : Inv initial x) :
    Tx.Keeps (exec F) (Mid initial) Done c x c.body x := by
  have hmid : Mid initial x x := ⟨hx, hx.keys, [], rfl, fun _ => rfl⟩
  apply Ensures.keeps
  cases c with
  | read canonicalize id => exact read_spec rfl hmid
  | mutate canonicalize id change now => exact mutate_spec rfl hmid
  | insertTask canonicalize request fresh now accept => exact insertTask_spec rfl hmid
  | openProject canonicalize isDir directory request fresh now =>
    exact openProject_spec rfl hmid

theorem consistent_of_steps {db : Database} {files : Files F.Content} (hkeys : db.Keys)
    (hvalid : ∀ root content, files.documents root = some content → Complete content)
    {w : StoreWorld F} (h : Tx.Steps Call.body (exec F) (.init db files) w) :
    Tx.Consistent (exec F) (Inv files.documents) (Mid files.documents) Done w := by
  have hstart : Tx.Consistent (exec F) (Inv files.documents) (Mid files.documents) Done
      (.init db files : StoreWorld F) := by
    refine ⟨⟨hkeys, hvalid, ?_, rfl⟩, ?_⟩
    · exact fun e he => (List.not_mem_nil he).elim
    · intro s hs
      cases hs
  refine h.consistent body_keeps (fun _ _ hx => hx.inv) ?_ hstart
  intro c r start x hx _
  exact ⟨hx.keys, hx.inv.valid, hx.inv.published, hx.inv.documents⟩

/-- After any sequence of calls, each of which may fail or be lost at any point: every document on
disk is complete, and reads as a valid one unless it nests too deep; every publication was the first
of its directory or what its call makes of the document it found there, with the next revision, and
the documents on disk are the last ones published; a call that ends without commit leaves SQL as it
found it, and the documents too unless it has published, be it only the document of a project it
adopts; and a call that commits leaves its document on disk and in SQL. -/
theorem store_authority (F : DocumentCodec) (db : Database) (files : Files F.Content)
    (hkeys : db.Keys)
    (hvalid : ∀ root content, files.documents root = some content → Complete content)
    (w : StoreWorld F) (h : Tx.Steps Call.body (exec F) (.init db files) w) :
    (∀ root content, w.outside.documents root = some content → Complete content) ∧
    (∀ e ∈ w.history, WellPublished e) ∧
    w.outside.documents = replay files.documents w.history ∧
    ∀ s ∈ w.active, ∀ w', Tx.Step Call.body (exec F) w w' → w'.active = none →
      (w'.db = s.start.work ∧ ∃ recent, w'.history = recent ++ s.start.history ∧
        ((∀ e ∈ recent, published? e = none) →
          w'.outside.documents = s.start.outside.documents)) ∨
      ∃ r, s.rest = .ret r ∧ w'.db.Shows r.2 ∧ Holds w'.outside r.1 r.2 ∧
        ∀ canonicalize id, s.call = .read canonicalize id →
          r.2.project.id = id ∧ Registered canonicalize w'.db id r.1 := by
  obtain ⟨hinv, hactive⟩ := consistent_of_steps hkeys hvalid h
  refine ⟨hinv.valid, hinv.published, hinv.documents, ?_⟩
  intro s hs w' hstep hnone
  obtain ⟨hdb, hmid, hkeeps⟩ := hactive s hs
  cases hstep with
  | begin c => cases hs
  | act _ => cases hnone
  | commit =>
    cases hs
    exact Or.inr ⟨_, rfl, hkeeps.2⟩
  | commitFails => exact Or.inl ⟨hdb.symm, hmid.quiet⟩
  | fail => exact Or.inl ⟨hdb.symm, hmid.quiet⟩
  | lose => exact Or.inl ⟨hdb.symm, hmid.quiet⟩

/-- One way the statements can go: none of them fails on its own. -/
def answer (F : DocumentCodec) : (s : Stmt F) → Database × Files F.Content →
    Stmt.Answer F s × (Database × Files F.Content)
  | .query, x => (.ok x.1, x)
  | .sql f, x =>
    match f x.1 with
    | .ok db => (.ok (), (db, x.2))
    | .error e => (.error e, x)
  | .readFile root, x => (.ok (x.2.documents root), x)
  | .writeTemporary content, x =>
    match x.2.temporaries 0 with
    | none => (.ok 0, (x.1,
      { x.2 with temporaries := Function.update x.2.temporaries 0 (some content) }))
    | some _ => (.error .io, (x.1,
      { x.2 with temporaries := Function.update x.2.temporaries 1 none }))
  | .persist temporary root noclobber, x =>
    match x.2.temporaries temporary with
    | none => (.error .io, x)
    | some content =>
      if noclobber && (x.2.documents root).isSome then (.error .io, x)
      else (.ok (), (x.1,
        { documents := Function.update x.2.documents root (some content)
          temporaries := Function.update x.2.temporaries temporary none }))

theorem exec_answer (s : Stmt F) (x : Database × Files F.Content) :
    exec F s x (answer F s x).1 (answer F s x).2 := by
  obtain ⟨db, files⟩ := x
  cases s with
  | query => exact .query db files
  | sql f =>
    cases h : f db with
    | ok db' =>
      simp only [answer, h]
      exact .sql files h
    | error e =>
      simp only [answer, h]
      exact .sqlRefused files h
  | readFile root => exact .readFile db files root
  | writeTemporary content =>
    cases h : files.temporaries 0 with
    | none =>
      simp only [answer, h]
      exact .write db content h
    | some other =>
      simp only [answer, h]
      exact .writeFails db files 1 content none
  | persist temporary root noclobber =>
    cases h : files.temporaries temporary with
    | none =>
      simp only [answer, h]
      exact .persistFails db files temporary root noclobber
    | some content =>
      simp only [answer, h]
      split_ifs with hexists
      · exact .persistFails db files temporary root noclobber
      · refine .persist db h ?_
        rintro rfl
        simpa using hexists

end Runs

end

section Sample

/-- Files that hold a document or nothing readable. -/
def sampleCodec : DocumentCodec where
  Content := Option ProjectDocument
  encode := some
  decode
    | some d => .ok d
    | none => .error "EOF while parsing a value"
  size _ := 1
  readBack d hd _ := ⟨d, rfl, hd, rfl⟩

/-- A project that has rows and a directory, but no document yet. -/
def legacyDatabase : Database :=
  { sampleDatabase with mounts := [], scratch := [(10, ⟨[], some "/p"⟩)] }

def noFiles : Files sampleCodec.Content := ⟨fun _ => none, fun _ => none⟩

/-- The call alone, after some statements. -/
def sampleRun (c : Call) (n : ℕ) : StoreWorld sampleCodec :=
  Tx.follow (answer sampleCodec) n ⟨legacyDatabase, noFiles, [],
    some ⟨c, c.body, legacyDatabase, ⟨legacyDatabase, noFiles, []⟩⟩⟩

theorem sampleRun_steps (c : Call) (n : ℕ) :
    Tx.Steps Call.body (exec sampleCodec) (.init legacyDatabase noFiles) (sampleRun c n) :=
  .head (.begin c) (Tx.follow_steps exec_answer n _)

def refusedChange : Call := .mutate some 10 (fun _ => .error (.badRequest "No")) 0

theorem legacyDatabase_keys : legacyDatabase.Keys := by
  have h := sampleDatabase_sound.keys
  exact ⟨h.1, h.2, h.3, h.4, h.5, h.6, h.7⟩

/-- A read that adopts the project, and then a change of its name up to its commit. -/
def sampleChange : Call :=
  .mutate some 10 (fun d => .ok { d with project := { d.project with name := "Next" } }) 5

def changedRun : StoreWorld sampleCodec :=
  Tx.follow (answer sampleCodec) 20
    (Tx.begun Call.body sampleChange (Tx.committed (sampleRun (.read some 10) 20)))

theorem changedRun_steps :
    Tx.Steps Call.body (exec sampleCodec) (.init legacyDatabase noFiles) changedRun :=
  (((sampleRun_steps (.read some 10) 20).trans (Tx.committed_steps _)).trans
    (Tx.begun_steps sampleChange _)).trans (Tx.follow_steps exec_answer 20 _)

theorem changedRun_publishes :
    changedRun.history.filterMap published? = [(0, "/p"), (0, "/p")] := by
  decide +kernel

/-- The call that holds the transaction has returned, and its rows differ from those it found. -/
theorem changedRun_returns : ∃ s r, s ∈ changedRun.active ∧ s.rest = .ret r ∧
    (r.1, r.2.revision, r.2.project.name) = ("/p", 2, "Next") ∧
    (Tx.committed changedRun).db.projects ≠ s.start.work.projects := by
  have hcall : changedRun.active.map (fun s =>
      (s.returned.map (fun r => (r.1, r.2.revision, r.2.project.name)),
        decide ((Tx.committed changedRun).db.projects ≠ s.start.work.projects))) =
      some (some ("/p", 2, "Next"), true) := by
    decide +kernel
  obtain ⟨s, hactive, hs⟩ := Option.map_eq_some_iff.mp hcall
  obtain ⟨hreturned, hdiffers⟩ := Prod.mk.inj hs
  obtain ⟨r, hr, hdocument⟩ := Option.map_eq_some_iff.mp hreturned
  exact ⟨s, r, hactive, s.rest_of_returned hr, hdocument, of_decide_eq_true hdiffers⟩

theorem noFiles_complete (root : String) (content : sampleCodec.Content)
    (h : noFiles.documents root = some content) : Complete content := by
  cases h

/-- The read publishes the document it adopts, the change the next one, and both commit. -/
theorem store_authority_changes : ∃ w s r,
    Tx.Steps Call.body (exec sampleCodec) (.init legacyDatabase noFiles) w ∧
      s ∈ w.active ∧ s.call = sampleChange ∧ s.rest = .ret r ∧
      (r.1, r.2.revision, r.2.project.name) = ("/p", 2, "Next") ∧
      w.history.filterMap published? = [(0, "/p"), (0, "/p")] ∧
      (∀ e ∈ w.history, WellPublished e) ∧
      w.outside.documents = replay noFiles.documents w.history ∧
      (∀ root content, w.outside.documents root = some content → Complete content) ∧
      (Tx.committed w).db.Shows r.2 ∧ Holds (Tx.committed w).outside "/p" r.2 := by
  obtain ⟨hcomplete, hpublished, hreplay, hends⟩ :=
    store_authority sampleCodec legacyDatabase noFiles legacyDatabase_keys noFiles_complete
      changedRun changedRun_steps
  obtain ⟨s, r, hactive, hrest, hdocument, hrows⟩ := changedRun_returns
  have hcall : s.call = sampleChange := by
    have hcalls : changedRun.active.map (·.call) = some sampleChange := rfl
    rw [Option.mem_def.mp hactive] at hcalls
    exact Option.some.inj hcalls
  refine ⟨changedRun, s, r, changedRun_steps, hactive, hcall, hrest, hdocument,
    changedRun_publishes, hpublished, hreplay, hcomplete, ?_⟩
  obtain ⟨hsame, _⟩ | ⟨r', hr', hshows, hholds, _⟩ :=
    hends s hactive _ (Tx.committed_step hactive hrest) (Tx.committed_active hactive hrest)
  · exact (hrows (congrArg Database.projects hsame)).elim
  · cases hrest.symm.trans hr'
    obtain ⟨hroot, _⟩ := Prod.mk.inj hdocument
    rw [hroot] at hholds
    exact ⟨hshows, hholds⟩

/-- A change that is refused has still left the document of the project it adopted. -/
theorem refused_change_publishes : ∃ w w' s,
    Tx.Steps Call.body (exec sampleCodec) (.init legacyDatabase noFiles) w ∧ s ∈ w.active ∧
      s.call = refusedChange ∧ s.start = ⟨legacyDatabase, noFiles, []⟩ ∧
      s.rest = .fail (.badRequest "No") ∧ Tx.Step Call.body (exec sampleCodec) w w' ∧
      w'.active = none ∧ w'.outside.documents ≠ s.start.outside.documents := by
  have hcall : (sampleRun refusedChange 7).active.map (fun s => (s.call, s.start, s.rest)) =
      some (refusedChange, ⟨legacyDatabase, noFiles, []⟩, .fail (.badRequest "No")) := rfl
  have hfile : (sampleRun refusedChange 7).outside.documents "/p" ≠ none := by decide +kernel
  obtain ⟨s, hactive, hs⟩ := Option.map_eq_some_iff.mp hcall
  obtain ⟨hscall, hs⟩ := Prod.mk.inj hs
  obtain ⟨hstart, hrest⟩ := Prod.mk.inj hs
  refine ⟨sampleRun refusedChange 7, { sampleRun refusedChange 7 with active := none }, s,
    sampleRun_steps refusedChange 7, hactive, hscall, hstart, hrest, ?_, rfl, ?_⟩
  · generalize sampleRun refusedChange 7 = w at hactive
    obtain ⟨db, outside, history, active⟩ := w
    cases hactive
    exact .lose
  · rw [hstart]
    exact fun heq => hfile (congrFun heq "/p")

end Sample

end VibeKanban.ProjectStore
