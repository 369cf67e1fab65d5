import VibeKanban.Lib.Smallest
import Mathlib.Data.String.Basic

/-! The pages of a directory listing, each taken from a scan of the whole directory. -/
namespace VibeKanban.Files

/-- A file name of the system, which need not be text. -/
inductive OsName where
  | text (name : String)
  | bytes (raw : List UInt8)
  deriving DecidableEq, Repr

inductive ProjectFileKind where
  | file | directory | symlink | other
  deriving DecidableEq, Repr

structure DirEntry where
  fileName : OsName
  isSymlink : Bool
  isDir : Bool
  isFile : Bool
  len : ℕ
  deriving DecidableEq, Repr

structure ProjectFileEntry where
  path : String
  name : String
  kind : ProjectFileKind
  sizeBytes : ℕ
  deriving DecidableEq, Repr

structure ProjectDirectoryPage where
  path : String
  entries : List ProjectFileEntry
  nextCursor : Option String
  deriving DecidableEq, Repr

def displayPath (path : String) : String := path.map fun c => if c = '\\' then '/' else c

def joinPath (path name : String) : String := if path = "" then name else path ++ "/" ++ name

def fileKind (entry : DirEntry) : ProjectFileKind :=
  if entry.isSymlink then .symlink
  else if entry.isDir then .directory
  else if entry.isFile then .file
  else .other

def fileEntry (path name : String) (entry : DirEntry) : ProjectFileEntry where
  path := displayPath (joinPath path name)
  name := name
  kind := fileKind entry
  sizeBytes := entry.len

/-- `limit + 1` on a `usize`, which wraps in a release build. -/
def retainedBound (limit : ℕ) : ℕ := (limit + 1) % 2 ^ 64

/-- What the handler passes on for the limit of the query. -/
def queryLimit (limit : Option ℕ) : ℕ := max 1 (min 1000 (limit.getD 100))

/-- The loop over the entries, with the map so far. -/
def scanEntries (path : String) (cursor : Option String) (limit : ℕ) :
    List ProjectFileEntry → List DirEntry → Except String (List ProjectFileEntry)
  | entries, [] => .ok entries
  | entries, entry :: rest =>
    match entry.fileName with
    | .bytes _ => .error "Directory contains a filename that cannot be represented as UTF-8"
    | .text name =>
      if cursor.any (name ≤ ·) then scanEntries path cursor limit entries rest
      else
        let entries := Lib.place ProjectFileEntry.name (fileEntry path name entry) entries
        scanEntries path cursor limit (Lib.popAbove (retainedBound limit) entries) rest

/-- A page from one scan, the entries in the order in which the directory yields them. -/
def directoryPage (path : String) (entries : List DirEntry) (cursor : Option String) (limit : ℕ) :
    Except String ProjectDirectoryPage := do
  let scanned ← scanEntries path cursor limit [] entries
  let hasMore := limit < scanned.length
  let kept := if hasMore then scanned.dropLast else scanned
  let nextCursor := if hasMore then kept.getLast?.map ProjectFileEntry.name else none
  pure { path := displayPath path, entries := kept, nextCursor }

/-- The pages from the cursor on, one call after another; `none` when the calls do not suffice. -/
def followPages (path : String) (order : ℕ → List DirEntry) (limit : ℕ) :
    ℕ → ℕ → Option String → Except String (Option (List ProjectDirectoryPage))
  | 0, _, _ => .ok none
  | calls + 1, call, cursor => do
    let page ← directoryPage path (order call) cursor limit
    match page.nextCursor with
    | none => pure (some [page])
    | some next =>
      let rest ← followPages path order limit calls (call + 1) (some next)
      pure (rest.map (page :: ·))

/-- The entry of a file whose name is text. -/
def listedEntry (path : String) (entry : DirEntry) : Option ProjectFileEntry :=
  match entry.fileName with
  | .text name => some (fileEntry path name entry)
  | .bytes _ => none

theorem listedEntry_eq_some {path : String} {entry : DirEntry} {listed : ProjectFileEntry}
    (h : listedEntry path entry = some listed) :
    ∃ name, entry.fileName = .text name ∧ fileEntry path name entry = listed := by
  unfold listedEntry at h
  split at h
  · exact ⟨_, ‹_›, Option.some.inj h⟩
  · cases h

theorem retainedBound_eq {limit : ℕ} (hmax : limit + 1 < 2 ^ 64) : retainedBound limit = limit + 1 :=
  Nat.mod_eq_of_lt hmax

/-- The limits of the handler are those that the listing is meant for. -/
theorem queryLimit_fits (limit : Option ℕ) : 1 ≤ queryLimit limit ∧ queryLimit limit + 1 < 2 ^ 64 := by
  unfold queryLimit
  omega

section Scan
variable {path : String} {cursor : Option String} {limit : ℕ} {entries : List DirEntry}

/-- The entries behind a cursor. -/
def behind (cursor : Option String) (l : List ProjectFileEntry) : List ProjectFileEntry :=
  l.filter fun entry => ¬ cursor.any (entry.name ≤ ·)

theorem scanEntries_eq (htext : ∀ entry ∈ entries, (listedEntry path entry).isSome)
    (kept : List ProjectFileEntry) :
    scanEntries path cursor limit kept entries =
      .ok ((behind cursor (entries.filterMap (listedEntry path))).foldl
        (fun kept entry => Lib.popAbove (retainedBound limit) (Lib.place ProjectFileEntry.name entry kept)) kept) := by
  induction entries generalizing kept with
  | nil => rfl
  | cons first rest ih =>
    have hrest := ih fun entry hentry => htext entry (List.mem_cons_of_mem _ hentry)
    have hfirst := htext first List.mem_cons_self
    rw [scanEntries]
    cases hname : first.fileName with
    | bytes raw => simp [listedEntry, hname] at hfirst
    | text name =>
      have hentry : listedEntry path first = some (fileEntry path name first) := by
        simp [listedEntry, hname]
      rw [List.filterMap_cons_some hentry]
      by_cases hbefore : cursor.any (name ≤ ·)
      · have hskip : ¬ (¬ cursor.any ((fileEntry path name first).name ≤ ·)) := not_not.mpr hbefore
        simp only [hbefore, if_true, hrest, behind]
        rw [List.filter_cons_of_neg (by simpa using hskip)]
      · have hkeep : ¬ cursor.any ((fileEntry path name first).name ≤ ·) := hbefore
        simp only [hbefore, hrest, behind]
        rw [List.filter_cons_of_pos (by simpa using hkeep), List.foldl_cons]
        simp

/-- The page of a directory whose entries have text names: the first entries behind the cursor. -/
theorem directoryPage_eq {sorted : List ProjectFileEntry} (hmax : limit + 1 < 2 ^ 64)
    (htext : ∀ entry ∈ entries, (listedEntry path entry).isSome)
    (hsorted : sorted.Pairwise (·.name < ·.name))
    (hperm : (behind cursor (entries.filterMap (listedEntry path))).Perm sorted) :
    directoryPage path entries cursor limit = .ok
      { path := displayPath path
        entries := sorted.take limit
        nextCursor := if limit < sorted.length then (sorted.take limit).getLast?.map (·.name) else none } := by
  have hscan : scanEntries path cursor limit [] entries = .ok (sorted.take (limit + 1)) := by
    rw [scanEntries_eq htext, retainedBound_eq hmax]
    congr 1
    exact Lib.scanSmallest_of_perm hsorted hperm
  unfold directoryPage
  rw [hscan]
  by_cases hmore : limit < sorted.length
  · have hlength : limit < (sorted.take (limit + 1)).length := by
      rw [List.length_take]
      omega
    have hdrop : (sorted.take (limit + 1)).dropLast = sorted.take limit := by
      rw [List.dropLast_eq_take, List.take_take, List.length_take]
      congr 1
      omega
    simp only [bind, Except.bind, pure, Except.pure, hlength, hmore, hdrop, if_true]
  · have hlength : ¬ limit < (sorted.take (limit + 1)).length := by
      rw [List.length_take]
      omega
    have htake : sorted.take (limit + 1) = sorted.take limit := by
      rw [List.take_of_length_le (by omega), List.take_of_length_le (by omega)]
    simp only [bind, Except.bind, pure, Except.pure, hlength, hmore, if_false]
    rw [htake]

/-- Behind the last entry of a part of a sorted list comes the rest of it. -/
theorem behind_append {before rest : List ProjectFileEntry} {last : ProjectFileEntry}
    (hsorted : (before ++ rest).Pairwise (·.name < ·.name)) (hlast : before.getLast? = some last) :
    behind (some last.name) (before ++ rest) = rest := by
  obtain ⟨init, rfl⟩ : ∃ init, before = init ++ [last] := ⟨_, (List.dropLast_append_getLast? _ hlast).symm⟩
  obtain ⟨hbefore, hrest, hcross⟩ := List.pairwise_append.mp hsorted
  have hinit := (List.pairwise_append.mp hbefore).2.2
  unfold behind
  rw [List.filter_append, List.filter_eq_nil_iff.mpr, List.filter_eq_self.mpr, List.nil_append]
  · intro entry hentry
    have hlt := hcross last (by simp) entry hentry
    simp only [Option.any_some, decide_eq_true_eq]
    exact not_le.mpr hlt
  · intro entry hentry
    simp only [Option.any_some, decide_eq_true_eq, not_not]
    rcases List.mem_append.mp hentry with hin | hin
    · exact (hinit entry hin last (by simp)).le
    · rw [List.mem_singleton.mp hin]

end Scan

section Follow
variable {path : String} {order : ℕ → List DirEntry} {limit : ℕ} {entries : List DirEntry}

/-- From a place in the sorted entries the pages list the rest of them. -/
theorem followPages_rest (hlimit : 1 ≤ limit) (hmax : limit + 1 < 2 ^ 64) (horder : ∀ call, (order call).Perm entries)
    (htext : ∀ entry ∈ entries, (listedEntry path entry).isSome) {all rest : List ProjectFileEntry}
    (hsorted : all.Pairwise (·.name < ·.name)) (hall : (entries.filterMap (listedEntry path)).Perm all)
    {cursor : Option String} (hrest : behind cursor all = rest)
    (hsuffix : ∃ before, before ++ rest = all) (call : ℕ) :
    ∃ calls pages, followPages path order limit calls call cursor = .ok (some pages) ∧ pages ≠ [] ∧
      pages.flatMap (·.entries) = rest ∧ ∀ page ∈ pages.dropLast, page.entries.length = limit := by
  induction hlength : rest.length using Nat.strong_induction_on generalizing rest cursor call with
  | _ n ih =>
    have hpage : directoryPage path (order call) cursor limit = .ok
        { path := displayPath path
          entries := rest.take limit
          nextCursor := if limit < rest.length then (rest.take limit).getLast?.map (·.name) else none } := by
      apply directoryPage_eq hmax
      · exact fun entry hentry => htext entry ((horder call).mem_iff.mp hentry)
      · obtain ⟨before, rfl⟩ := hsuffix
        exact (List.pairwise_append.mp hsorted).2.1
      · rw [← hrest]
        exact (((horder call).filterMap _).trans hall).filter _
    by_cases hmore : limit < rest.length
    · have hne : rest.take limit ≠ [] := by
        intro hnil
        have hshort := congrArg List.length hnil
        rw [List.length_take, List.length_nil] at hshort
        omega
      obtain ⟨last, hlast⟩ := Option.ne_none_iff_exists'.mp (mt List.getLast?_eq_none_iff.mp hne)
      obtain ⟨before, hbefore⟩ := hsuffix
      have hsplit : (before ++ rest.take limit) ++ rest.drop limit = all := by
        rw [List.append_assoc, List.take_append_drop, hbefore]
      have hnext : behind (some last.name) all = rest.drop limit := by
        rw [← hsplit]
        apply behind_append (hsplit ▸ hsorted)
        rw [List.getLast?_append_of_ne_nil _ hne, hlast]
      obtain ⟨calls, pages, hfollow, hpages, hentries, hfull⟩ := ih (rest.drop limit).length
        (by rw [List.length_drop]; omega) hnext ⟨_, hsplit⟩ (call + 1) rfl
      let page : ProjectDirectoryPage := ⟨displayPath path, rest.take limit, some last.name⟩
      refine ⟨calls + 1, page :: pages, ?_, List.cons_ne_nil _ _, ?_, ?_⟩
      · rw [followPages, hpage]
        simp only [bind, Except.bind, pure, Except.pure, hmore, if_true, hlast, Option.map_some, hfollow]
        rfl
      · rw [List.flatMap_cons, hentries]
        exact List.take_append_drop limit rest
      · rw [List.dropLast_cons_of_ne_nil hpages]
        intro other hother
        rcases List.mem_cons.mp hother with rfl | hlater
        · exact List.length_take_of_le hmore.le
        · exact hfull other hlater
    · let page : ProjectDirectoryPage := ⟨displayPath path, rest.take limit, none⟩
      refine ⟨1, [page], ?_, List.cons_ne_nil _ _, ?_, by simp⟩
      · rw [followPages, hpage]
        simp only [bind, Except.bind, pure, Except.pure, hmore, if_false]
        rfl
      · simp [page, List.take_of_length_le (show rest.length ≤ limit by omega)]

/-- Whatever the orders of the scans, the pages of a directory whose names are distinct texts list every
entry once and in order, all but the last page being full. -/
theorem followPages_complete (hlimit : 1 ≤ limit) (hmax : limit + 1 < 2 ^ 64) (hnames : (entries.map DirEntry.fileName).Nodup)
    (horder : ∀ call, (order call).Perm entries)
    (htext : ∀ entry ∈ entries, ∃ name, entry.fileName = .text name) :
    ∃ calls pages, followPages path order limit calls 0 none = .ok (some pages) ∧
      (pages.flatMap (·.entries)).Perm (entries.filterMap (listedEntry path)) ∧
      (pages.flatMap (·.entries)).length = entries.length ∧
      (pages.flatMap (·.entries)).Pairwise (·.name < ·.name) ∧
      ∀ page ∈ pages.dropLast, page.entries.length = limit := by
  have hsome : ∀ entry ∈ entries, (listedEntry path entry).isSome := by
    intro entry hentry
    obtain ⟨name, hname⟩ := htext entry hentry
    simp [listedEntry, hname]
  have hdistinct : (entries.filterMap (listedEntry path)).Pairwise (·.name ≠ ·.name) := by
    apply List.Pairwise.filterMap (listedEntry path) _ (List.pairwise_map.mp hnames)
    intro first second hne a ha b hb heq
    obtain ⟨name, hname, rfl⟩ := listedEntry_eq_some ha
    obtain ⟨other, hother, rfl⟩ := listedEntry_eq_some hb
    exact hne (hname.trans ((congrArg OsName.text heq).trans hother.symm))
  let all := (entries.filterMap (listedEntry path)).mergeSort fun a b => a.name ≤ b.name
  have hall : all.Perm (entries.filterMap (listedEntry path)) := List.mergeSort_perm _ _
  have hsorted : all.Pairwise (·.name < ·.name) := by
    have hle : all.Pairwise fun a b => decide (a.name ≤ b.name) = true := by
      apply List.pairwise_mergeSort
      · intro a b c hab hbc
        exact decide_eq_true ((of_decide_eq_true hab).trans (of_decide_eq_true hbc))
      · intro a b
        simpa using le_total a.name b.name
    have hne := (hall.pairwise_iff fun h => Ne.symm h).mpr hdistinct
    exact (hle.and hne).imp fun h => lt_of_le_of_ne (of_decide_eq_true h.1) h.2
  have hfirst : behind none all = all := by simp [behind]
  obtain ⟨calls, pages, hfollow, -, hentries, hfull⟩ :=
    followPages_rest hlimit hmax horder hsome hsorted hall.symm hfirst ⟨[], rfl⟩ 0
  refine ⟨calls, pages, hfollow, hentries ▸ hall, ?_, hentries ▸ hsorted, hfull⟩
  rw [hentries, hall.length_eq, List.length_filterMap_eq_countP, List.countP_eq_length]
  exact hsome

/-- Two entries on pages of one, scanned in different orders. -/
theorem followPages_complete_two :
    let entries : List DirEntry := [⟨.text "report", false, false, true, 8⟩, ⟨.text ".env", false, false, true, 8⟩]
    let order : ℕ → List DirEntry := fun call => if call = 0 then entries else entries.reverse
    ∃ calls pages, followPages "" order 1 calls 0 none = .ok (some pages) ∧
      (pages.flatMap (·.entries)).Perm (entries.filterMap (listedEntry "")) ∧
      (pages.flatMap (·.entries)).length = 2 ∧
      (pages.flatMap (·.entries)).Pairwise (·.name < ·.name) ∧
      ∀ page ∈ pages.dropLast, page.entries.length = 1 := by
  intro entries order
  apply followPages_complete (by decide) (by decide) (by decide)
  · intro call
    show (if call = 0 then entries else entries.reverse).Perm entries
    split
    · exact .refl entries
    · exact List.reverse_perm entries
  · simp [entries]

/-- A single name that is not text leaves the directory without a listing, and a limit of `usize::MAX`
empties the page of a directory with one file. -/
theorem foreign_name_refused :
    (let entries : List DirEntry := [⟨.bytes [255], false, false, true, 8⟩]
    ∀ calls pages, followPages "" (fun _ => entries) 1 calls 0 none ≠ .ok (some pages)) ∧
    directoryPage "" [⟨.text "report", false, false, true, 8⟩] none (2 ^ 64 - 1) = .ok ⟨"", [], none⟩ := by
  constructor
  · intro entries calls pages
    cases calls with
    | zero => simp [followPages]
    | succ calls =>
      have hrefused : directoryPage "" entries none 1 =
          .error "Directory contains a filename that cannot be represented as UTF-8" := rfl
      simp [followPages, hrefused, bind, Except.bind]
  · have hbound : ∀ limit, retainedBound limit = 0 →
        scanEntries "" none limit [] [⟨.text "report", false, false, true, 8⟩] = .ok [] := by
      intro limit hzero
      simp [scanEntries, hzero, Lib.popAbove, Lib.place]
    have hpath : displayPath "" = "" := by simp [displayPath]
    unfold directoryPage
    rw [hbound _ (by rfl), hpath]
    simp [bind, Except.bind, pure, Except.pure]

end Follow

end VibeKanban.Files
