import TargetClickhouse.Delivery

/-!
# Arrow manifests

The processing of the files of an Arrow batch, which are read once and removed after their rows are
inserted.  `processArrowBatchFiles_lossless` says what holds wherever the processing stops: a
prefix of the files was removed, all rows of each of them are in an accepted insert, and no other
file was touched.
-/

namespace TargetClickhouse

open Effects Effects.Proc Dict

/-! ## Manifest paths -/

/-- What `urlsplit` raises on network locations with misplaced brackets, or with characters that
NFKC normalisation turns into delimiters. -/
structure UrlRules where
  checkNetloc : String → Except Exn Unit
  checkNetloc_empty : checkNetloc "" = .ok ()

/-- The schemes whose paths have parameters. -/
def usesParams : List String :=
  ["", "ftp", "hdl", "prospero", "http", "https", "shttp", "rtsp", "rtsps", "rtspu", "sip", "sips",
    "mms", "sftp", "tel"]

def isSchemeChar (c : Char) : Bool :=
  c.isAlphanum || c = '+' || c = '-' || c = '.'

/-- The scheme of a URL, in lower case, and what follows it. -/
def splitScheme (url : List Char) : String × List Char :=
  let scheme := url.takeWhile (· ≠ ':')
  match url.drop scheme.length with
  | ':' :: rest =>
      if scheme.head?.any Char.isAlpha && scheme.all isSchemeChar then
        (String.ofList (scheme.map Char.toLower), rest)
      else ("", url)
  | _ => ("", url)

/-- The network location of a URL without its scheme, and what follows it. -/
def splitNetloc : List Char → String × List Char
  | '/' :: '/' :: url =>
      let netloc := url.takeWhile fun c => c ≠ '/' ∧ c ≠ '?' ∧ c ≠ '#'
      (String.ofList netloc, url.drop netloc.length)
  | url => ("", url)

/-- A path without its parameters, which start at the first semicolon of its last segment. -/
def dropParams (path : List Char) : List Char :=
  let segment := path.rtakeWhile (· ≠ '/')
  path.take (path.length - segment.length) ++ segment.takeWhile (· ≠ ';')

/-- `urlparse(url).path`. -/
def urlPath (rules : UrlRules) (url : String) : Except Exn String := do
  let url := (url.toList.dropWhile fun c => c.toNat ≤ 0x20).filter
    fun c => c ≠ '\t' ∧ c ≠ '\r' ∧ c ≠ '\n'
  let (scheme, url) := splitScheme url
  let (netloc, url) := splitNetloc url
  rules.checkNetloc netloc
  let path := (url.takeWhile (· ≠ '#')).takeWhile (· ≠ '?')
  return String.ofList (if scheme ∈ usesParams then dropParams path else path)

/-- `resolve_manifest_path`. -/
def resolveManifestPath (rules : UrlRules) (fileUri : String) : Except Exn String := do
  let path ← urlPath rules fileUri
  return if path ≠ "" then path else fileUri

/-! ## Processing the files -/

/-- `read_arrow_batch_file`. -/
def readArrowBatchFile (path : String) : Step ArrowTable := do
  let _ ← send (.readFile path)
  observe fun w => match w.files.lookup path with
    | some table => .ok table
    | none => .error (.fileNotFoundError path)

/-- `os.remove(path)`. -/
def removeFile (path : String) : Step Unit := do
  let _ ← send (.removeFile path)
  modify fun w => { w with files := erase w.files path }

namespace Sink

variable (sdk : Sdk) (naming : Naming) (rules : UrlRules) (sink : Sink)

/-- The removal of a file when `clean_up_batch_files` is set. -/
def cleanUpBatchFile (path : String) : Step Unit := fun w =>
  if sink.config.cleanUpBatchFiles.getD false ∧ path ∈ keys w.files then removeFile path w
  else (.ok (), w)

/-- One round of `_process_arrow_batch_files`. -/
def processArrowBatchFile (fileUri : String) : Step ℤ := do
  let path ← lift (resolveManifestPath rules fileUri)
  let table ← readArrowBatchFile path
  let inserted ← sink.insertArrowTable sdk naming table
  sink.cleanUpBatchFile path
  return inserted

/-- The rounds of `_process_arrow_batch_files`, from the running total. -/
def processArrowBatchFilesFrom : List String → ℤ → Step ℤ
  | [], total => pure total
  | fileUri :: files, total => do
      let inserted ← sink.processArrowBatchFile sdk naming rules fileUri
      processArrowBatchFilesFrom files (total + inserted)

/-- `_process_arrow_batch_files`. -/
def processArrowBatchFiles (files : List String) : Step ℤ :=
  sink.processArrowBatchFilesFrom sdk naming rules files 0

end Sink

/-! ## One file -/

/-- A file whose insert was called between two worlds. -/
structure FileRun where
  path : String
  table : ArrowTable
  before : World
  after : World

/-- The insert of the file returned, and all its rows are in an accepted request. -/
structure FileRun.Served (sdk : Sdk) (naming : Naming) (sink : Sink) (run : FileRun) : Prop where
  returned : sink.insertArrowTable sdk naming run.table run.before =
    (.ok (run.table.numRows : ℤ), run.after)
  accepted : run.table.numRows ≠ 0 →
    World.Accepted (fun request => request.Carries sdk sink.schema run.table ∧
      request.HasRows run.table.numRows) run.before run.after

theorem extends_readArrowBatchFile (path : String) :
    Moves World.Extends (readArrowBatchFile path) :=
  (extends_send _).bind fun _ => moves_observe _

theorem lookup_of_readArrowBatchFile {path : String} {table : ArrowTable} {w w' : World}
    (h : readArrowBatchFile path w = (.ok table, w')) : w.files.lookup path = some table := by
  obtain ⟨_, w₁, hsend, hread⟩ := bind_eq_ok.1 h
  have hext := extends_send (.readFile path) w
  rw [hsend] at hext
  obtain ⟨hlookup, -⟩ := observe_eq_ok.1 hread
  rw [← hext.1]
  rcases ht : w₁.files.lookup path with _ | t <;> rw [ht] at hlookup
  · cases hlookup
  · exact congrArg some (Except.ok.inj hlookup)

/-- A removal that fails leaves the files alone. -/
theorem removeFile_spec (path : String) (w : World) {res : Res Exn Unit} {w' : World}
    (h : removeFile path w = (res, w')) :
    w.log <+: w'.log ∧ w'.files = if res = .ok () then erase w.files path else w.files := by
  have hext := extends_send (.removeFile path) w
  rcases bind_cases h with ⟨_, w₁, hs, hm⟩ | ⟨-, hres, rfl⟩
  · rw [hs] at hext
    obtain ⟨rfl, rfl⟩ := Prod.mk.inj hm
    exact ⟨hext.2, by rw [if_pos rfl, ← hext.1]⟩
  · exact ⟨hext.2, by rw [if_neg (hres ()), hext.1]⟩

namespace Sink

variable {sdk : Sdk} {naming : Naming} {rules : UrlRules} {sink : Sink}

theorem cleanUpBatchFile_spec (path : String) (w : World) {res : Res Exn Unit} {w' : World}
    (h : sink.cleanUpBatchFile path w = (res, w')) :
    w.log <+: w'.log ∧ (res ≠ .ok () → w'.files = w.files) ∧
      (res = .ok () → ∀ p, w'.files.lookup p =
        if sink.config.cleanUpBatchFiles.getD false ∧ p = path then none
        else w.files.lookup p) := by
  unfold cleanUpBatchFile at h
  split_ifs at h with hclean
  · obtain ⟨hlog, hfiles⟩ := removeFile_spec path w h
    refine ⟨hlog, fun hres => ?_, fun hres p => ?_⟩
    · rw [hfiles, if_neg hres]
    · rw [hfiles, if_pos hres, lookup_erase]
      simp [hclean.1]
  · obtain ⟨rfl, rfl⟩ := Prod.mk.inj h
    refine ⟨List.prefix_rfl, fun _ => rfl, fun _ p => ?_⟩
    split_ifs with hp
    · rw [hp.2]
      exact lookup_eq_none fun hmem => hclean ⟨hp.1, hmem⟩
    · rfl

/-- A round that completes has served the file it read, and removed it if clean-up is on; a round
that does not complete leaves the files alone. -/
theorem processArrowBatchFile_spec (fileUri : String) (w : World) {res : Res Exn ℤ} {w' : World}
    (h : sink.processArrowBatchFile sdk naming rules fileUri w = (res, w')) :
    w.log <+: w'.log ∧
      ((∀ n, res ≠ .ok n) ∧ w'.files = w.files ∨
        ∃ run : FileRun, res = .ok (run.table.numRows : ℤ) ∧
          resolveManifestPath rules fileUri = .ok run.path ∧
          w.files.lookup run.path = some run.table ∧ run.Served sdk naming sink ∧
          w.log <+: run.before.log ∧ run.after.log <+: w'.log ∧
          ∀ p, w'.files.lookup p = if sink.config.cleanUpBatchFiles.getD false ∧ p = run.path
            then none else w.files.lookup p) := by
  rcases bind_cases h with ⟨path, w₀, hlift, h⟩ | ⟨-, hres, rfl⟩
  · obtain ⟨hpath, rfl⟩ := lift_eq_ok.1 hlift
    have hread := extends_readArrowBatchFile path w
    rcases bind_cases h with ⟨table, w₁, hr, h⟩ | ⟨-, hres, rfl⟩
    · rw [hr] at hread
      have hins := trans_of World.Extends hread
        (moves_insertArrowTable sdk naming sink table (fun request _ => extends_send request) w₁)
      rcases bind_cases h with ⟨n, w₂, hi, h⟩ | ⟨-, hres, rfl⟩
      · rw [hi] at hins
        obtain ⟨hn, hacc⟩ := insertArrowTable_spec hi
        rcases bind_cases h with ⟨_, w₃, hc, h⟩ | ⟨hclean, hres, rfl⟩
        · obtain ⟨rfl, rfl⟩ := Prod.mk.inj h
          obtain ⟨hlog, -, hfiles⟩ := cleanUpBatchFile_spec path w₂ hc
          refine ⟨hins.2.trans hlog, Or.inr ⟨⟨path, table, w₁, w₂⟩, congrArg Res.ok hn, hpath,
            lookup_of_readArrowBatchFile hr, ⟨?_, ?_⟩, hread.2, hlog, fun p => ?_⟩⟩
          · rw [hi, hn]
          · exact fun hrows => (hacc hrows).imp fun _ h => ⟨h, h.hasRows⟩
          · rw [hfiles rfl p, hins.1]
        · -- the clean-up failed
          obtain ⟨hlog, hfiles, -⟩ := cleanUpBatchFile_spec path w₂ (Prod.eta _).symm
          exact ⟨hins.2.trans hlog, Or.inl ⟨hres, (hfiles (hclean ())).trans hins.1⟩⟩
      · exact ⟨hins.2, Or.inl ⟨hres, hins.1⟩⟩
    · exact ⟨hread.2, Or.inl ⟨hres, hread.1⟩⟩
  · have hlift := (moves_lift (resolveManifestPath rules fileUri) : Moves World.Extends _) w
    exact ⟨hlift.2, Or.inl ⟨hres, hlift.1⟩⟩

/-! ## All files -/

/-- What holds when the processing of `files`, begun at `w`, stops with `res` at `w'`, where `runs`
are the rounds that completed: they are the first rounds, each served its file, in order, only
their files are removed, and a normal return means that there is a round for every file and counts
the rows of all of them. -/
structure Lossless (sdk : Sdk) (naming : Naming) (rules : UrlRules) (sink : Sink)
    (files : List String) (start : ℤ) (w : World) (runs : List FileRun) (res : Res Exn ℤ)
    (w' : World) : Prop where
  resolved : runs.map (fun run => Except.ok run.path) <+: files.map (resolveManifestPath rules)
  served : ∀ run ∈ runs, w.files.lookup run.path = some run.table ∧ run.Served sdk naming sink
  logged : ∀ run ∈ runs, w.log <+: run.before.log ∧ run.after.log <+: w'.log
  inOrder : runs.Pairwise fun run next => run.after.log <+: next.before.log
  removed : ∀ p, w'.files.lookup p =
    if sink.config.cleanUpBatchFiles.getD false ∧ p ∈ runs.map FileRun.path then none
    else w.files.lookup p
  complete : ∀ total, res = .ok total → runs.length = files.length ∧
    total = start + (runs.map fun run => (run.table.numRows : ℤ)).sum

theorem lossless_processArrowBatchFilesFrom (files : List String) (start : ℤ) (w : World)
    {res : Res Exn ℤ} {w' : World}
    (h : sink.processArrowBatchFilesFrom sdk naming rules files start w = (res, w')) :
    w.log <+: w'.log ∧ ∃ runs, Lossless sdk naming rules sink files start w runs res w' := by
  induction files generalizing start w with
  | nil =>
    obtain ⟨rfl, rfl⟩ := Prod.mk.inj h
    refine ⟨List.prefix_rfl, [], ⟨by simp, by simp, by simp, by simp, by simp, ?_⟩⟩
    rintro total hres
    obtain rfl := Res.ok.inj hres
    simp
  | cons fileUri files ih =>
    have hspec := processArrowBatchFile_spec fileUri w
      (Prod.eta (sink.processArrowBatchFile sdk naming rules fileUri w)).symm
    rcases bind_cases h with ⟨n, w₁, hfile, hrest⟩ | ⟨hfile, hres, rfl⟩
    · rw [hfile] at hspec
      obtain ⟨hlog, ⟨hne, -⟩ | ⟨run, hn, hpath, htable, hserved, hbefore, hafter, hfiles⟩⟩ := hspec
      · exact absurd rfl (hne n)
      · obtain rfl := Res.ok.inj hn
        obtain ⟨hlog', runs, hruns⟩ := ih _ w₁ hrest
        refine ⟨hlog.trans hlog', run :: runs, ⟨?_, ?_, ?_, ?_, ?_, ?_⟩⟩
        · rw [List.map_cons, List.map_cons, hpath]
          exact List.prefix_cons_iff.2 (Or.inr ⟨_, rfl, hruns.resolved⟩)
        · refine List.forall_mem_cons.2 ⟨⟨htable, hserved⟩, fun next hnext => ?_⟩
          obtain ⟨hlookup, hnext⟩ := hruns.served next hnext
          -- a file that is still there has not been removed
          rw [hfiles] at hlookup
          split_ifs at hlookup
          exact ⟨hlookup, hnext⟩
        · refine List.forall_mem_cons.2 ⟨⟨hbefore, hafter.trans hlog'⟩, fun next hnext => ?_⟩
          obtain ⟨hnextBefore, hnextAfter⟩ := hruns.logged next hnext
          exact ⟨hlog.trans hnextBefore, hnextAfter⟩
        · refine List.pairwise_cons.2 ⟨fun next hnext => ?_, hruns.inOrder⟩
          exact hafter.trans (hruns.logged next hnext).1
        · intro p
          rw [hruns.removed p, hfiles p]
          simp only [List.map_cons, List.mem_cons, and_or_left, ite_or]
          split_ifs <;> rfl
        · intro total hres
          obtain ⟨hlen, rfl⟩ := hruns.complete total hres
          refine ⟨congrArg Nat.succ hlen, ?_⟩
          rw [List.map_cons, List.sum_cons]
          ring
    · obtain ⟨hlog, ⟨-, hfiles⟩ | ⟨run, hn, -⟩⟩ := hspec
      · refine ⟨hlog, [], ⟨by simp, by simp, by simp, by simp, ?_, ?_⟩⟩
        · intro p
          rw [hfiles]
          simp
        · exact fun total htotal => absurd htotal (hres total)
      · exact absurd hn (hfile _)

/-- Wherever the processing of a manifest stops, nothing is lost. -/
theorem processArrowBatchFiles_lossless (sdk : Sdk) (naming : Naming) (rules : UrlRules)
    (sink : Sink) (files : List String) (w : World) :
    ∃ runs, Lossless sdk naming rules sink files 0 w runs
      (sink.processArrowBatchFiles sdk naming rules files w).1
      (sink.processArrowBatchFiles sdk naming rules files w).2 :=
  (lossless_processArrowBatchFilesFrom files 0 w (Prod.eta _).symm).2

end Sink

end TargetClickhouse
