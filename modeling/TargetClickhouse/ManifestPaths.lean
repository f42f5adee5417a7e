import TargetClickhouse.ArrowBatch
import TargetClickhouse.Lib.Percent

/-!
# The files that a manifest names

A producer writes the path of a file into the manifest as a percent-encoded `file://` URI or as it
is.  `resolve_manifest_path` splits both like a URL and decodes nothing, so it gives the path back
only for some paths (`namesFiles_iff`): those without a character that the URI encodes, and without
what a URL takes for parameters or a network location.
-/

namespace TargetClickhouse

open Effects Effects.Proc Dict Text

/-! ## Manifest entries -/

/-- An absolute POSIX path. -/
structure AbsolutePath where
  text : String
  absolute : text.toList.head? = some '/'
  noNul : Char.ofNat 0 ∉ text.toList

/-- A URL with this text has the whole of it as its path: it begins with one slash and has no
semicolon in its last segment.  Or it has nothing but a network location, and then
`resolve_manifest_path` falls back on the text. -/
def AbsolutePath.IsWhole (rules : UrlRules) (path : AbsolutePath) : Prop :=
  match path.text.toList with
  | '/' :: '/' :: netloc => '/' ∉ netloc ∧ rules.checkNetloc (String.ofList netloc) = .ok ()
  | cs => ';' ∉ cs.rtakeWhile (· ≠ '/')

/-- The characters that the path of a URI may have as they are. -/
def isUriPathChar (c : Char) : Bool :=
  c.isAlphanum || "-._~!$&'()*+,;=:@/".toList.contains c

/-- How a producer writes the path of a file as a URI: the characters that it does not encode. -/
structure UriStyle where
  safe : Char → Bool
  safe_slash : safe '/' = true
  isUriPathChar_of_safe : ∀ c, safe c = true → isUriPathChar c = true

namespace UriStyle

/-- The style of `pathlib.Path.as_uri`. -/
def asUri : UriStyle where
  safe c := c.isAlphanum || "_.-~/".toList.contains c
  safe_slash := by decide
  isUriPathChar_of_safe c h := by
    have hall : "_.-~/".toList.all isUriPathChar = true := by decide
    rcases Bool.or_eq_true_iff.1 h with h | h
    · rw [isUriPathChar, h, Bool.true_or]
    · exact List.all_eq_true.1 hall c (List.contains_iff_mem.1 h)

variable (style : UriStyle)

/-- The percent-encoded file URI of a path. -/
def fileUri (path : AbsolutePath) : String := "file://" ++ percentEncode style.safe path.text

/-- The entry names the file of the path. -/
def Names (entry : String) (path : AbsolutePath) : Prop :=
  entry = style.fileUri path ∨ entry = path.text

/-- A producer writes the path as it is, and `resolve_manifest_path` keeps it. -/
def Plain (rules : UrlRules) (path : AbsolutePath) : Prop :=
  (∀ c ∈ path.text.toList, style.safe c = true) ∧ path.IsWhole rules

end UriStyle

/-! ## URLs without queries and fragments -/

/-- The character is neither stripped nor does it start a query or a fragment. -/
def IsPlainChar (c : Char) : Prop := 0x20 < c.toNat ∧ c ≠ '?' ∧ c ≠ '#'

instance (c : Char) : Decidable (IsPlainChar c) :=
  inferInstanceAs (Decidable (0x20 < c.toNat ∧ c ≠ '?' ∧ c ≠ '#'))

theorem isPlainChar_of_all {s : String} (h : s.toList.all (fun c => decide (IsPlainChar c)) = true) :
    ∀ c ∈ s.toList, IsPlainChar c := fun c hc =>
  of_decide_eq_true (List.all_eq_true.1 h c hc)

theorem isPlainChar_of_isUriPathChar {c : Char} (h : isUriPathChar c = true) : IsPlainChar c := by
  by_cases hcode : c.toNat < 0x40
  · have hlow : ∀ n < 0x40, isUriPathChar (Char.ofNat n) = true → IsPlainChar (Char.ofNat n) := by
      decide
    have hc := hlow c.toNat hcode
    rw [Char.ofNat_toNat] at hc
    exact hc h
  · refine ⟨by omega, ?_, ?_⟩
    · rintro rfl
      exact hcode (by decide)
    · rintro rfl
      exact hcode (by decide)

/-- The path of a URL whose scheme and network location have been split off. -/
def schemePath (scheme : String) (path : List Char) : List Char :=
  if scheme ∈ usesParams then dropParams path else path

theorem splitScheme_slash (cs : List Char) : splitScheme ('/' :: cs) = ("", '/' :: cs) := by
  simp only [splitScheme, List.takeWhile_cons]
  split
  · rw [if_neg (by simp)]
  · rfl

theorem splitScheme_file (cs : List Char) : splitScheme ("file:".toList ++ cs) = ("file", cs) := by
  simp [splitScheme, isSchemeChar]

theorem splitNetloc_suffix (url : List Char) : (splitNetloc url).2 <:+ url := by
  unfold splitNetloc
  split
  · exact (List.drop_suffix _ _).trans ⟨['/', '/'], rfl⟩
  · exact List.suffix_rfl

theorem splitScheme_suffix (url : List Char) : (splitScheme url).2 <:+ url := by
  unfold splitScheme
  dsimp only
  split
  · rename_i rest hrest
    split_ifs
    · have hdrop := List.drop_suffix (url.takeWhile (· ≠ ':')).length url
      rw [hrest] at hdrop
      exact (List.suffix_cons ':' rest).trans hdrop
    · exact List.suffix_rfl
  · exact List.suffix_rfl

/-- Without white space, queries and fragments, only the scheme, the network location and the
parameters are split off. -/
theorem urlPath_of_plain {rules : UrlRules} {url : String}
    (h : ∀ c ∈ url.toList, IsPlainChar c) :
    urlPath rules url = (rules.checkNetloc (splitNetloc (splitScheme url.toList).2).1).map
      fun _ => String.ofList (schemePath (splitScheme url.toList).1
        (splitNetloc (splitScheme url.toList).2).2) := by
  have hdrop : url.toList.dropWhile (fun c => c.toNat ≤ 0x20) = url.toList := by
    refine dropWhile_eq_self_iff_head.2 fun c hc => ?_
    have hplain := h c (List.mem_of_head? hc)
    exact decide_eq_false (not_le.2 hplain.1)
  have hfilter : url.toList.filter (fun c => c ≠ '\t' ∧ c ≠ '\r' ∧ c ≠ '\n') = url.toList := by
    refine List.filter_eq_self.2 fun c hc => decide_eq_true ⟨?_, ?_, ?_⟩
    · rintro rfl
      exact absurd (h _ hc).1 (by decide)
    · rintro rfl
      exact absurd (h _ hc).1 (by decide)
    · rintro rfl
      exact absurd (h _ hc).1 (by decide)
  have hrest : ∀ c ∈ (splitNetloc (splitScheme url.toList).2).2, IsPlainChar c := fun c hc =>
    h c ((splitScheme_suffix _).subset ((splitNetloc_suffix _).subset hc))
  have hhash : (splitNetloc (splitScheme url.toList).2).2.takeWhile (· ≠ '#') =
      (splitNetloc (splitScheme url.toList).2).2 :=
    List.takeWhile_eq_self_iff.2 fun c hc => decide_eq_true (hrest c hc).2.2
  have hquery : (splitNetloc (splitScheme url.toList).2).2.takeWhile (· ≠ '?') =
      (splitNetloc (splitScheme url.toList).2).2 :=
    List.takeWhile_eq_self_iff.2 fun c hc => decide_eq_true (hrest c hc).2.1
  unfold urlPath
  rw [hdrop, hfilter]
  dsimp only
  rw [hhash, hquery]
  rfl

theorem resolveManifestPath_eq (rules : UrlRules) (fileUri : String) :
    resolveManifestPath rules fileUri =
      (urlPath rules fileUri).map fun path => if path ≠ "" then path else fileUri := by
  rw [resolveManifestPath]
  cases urlPath rules fileUri <;> rfl

theorem dropParams_eq (path : List Char) :
    dropParams path =
      path.rdropWhile (· ≠ '/') ++ (path.rtakeWhile (· ≠ '/')).takeWhile (· ≠ ';') := by
  have hlength := congrArg List.length
    (List.rdropWhile_append_rtakeWhile (l := path) (p := fun c => decide (c ≠ '/')))
  rw [List.length_append] at hlength
  have hbefore : path.length - (path.rtakeWhile (· ≠ '/')).length =
      (path.rdropWhile (· ≠ '/')).length := by omega
  have htake := List.prefix_iff_eq_take.1
    (List.rdropWhile_prefix (fun c => decide (c ≠ '/')) (l := path))
  rw [dropParams, hbefore, ← htake]

/-- The path stays whole unless its last segment has a semicolon. -/
theorem dropParams_eq_self_iff (path : List Char) :
    dropParams path = path ↔ ';' ∉ path.rtakeWhile (· ≠ '/') := by
  have hparts := List.rdropWhile_append_rtakeWhile (l := path) (p := fun c => decide (c ≠ '/'))
  have hcancel : dropParams path = path ↔
      (path.rtakeWhile (· ≠ '/')).takeWhile (· ≠ ';') = path.rtakeWhile (· ≠ '/') := by
    rw [dropParams_eq]
    conv_lhs => rhs; rw [← hparts]
    exact List.append_right_inj _
  rw [hcancel, List.takeWhile_eq_self_iff]
  constructor
  · intro h hmem
    exact absurd (h ';' hmem) (by decide)
  · intro h c hc
    refine decide_eq_true ?_
    rintro rfl
    exact h hc

theorem dropParams_ne_nil {path : List Char} (h : '/' ∈ path) : dropParams path ≠ [] := by
  rw [dropParams_eq]
  intro hnil
  have hall := List.rdropWhile_eq_nil_iff.1 (List.append_eq_nil_iff.1 hnil).1
  exact absurd (hall '/' h) (by decide)

theorem length_dropParams_le (path : List Char) : (dropParams path).length ≤ path.length := by
  have hparts := congrArg List.length
    (List.rdropWhile_append_rtakeWhile (l := path) (p := fun c => decide (c ≠ '/')))
  have hsegment := (List.takeWhile_prefix (fun c => decide (c ≠ ';'))
    (l := path.rtakeWhile (· ≠ '/'))).length_le
  rw [List.length_append] at hparts
  rw [dropParams_eq, List.length_append]
  omega

/-! ## The two forms of an entry -/

section Forms

variable {style : UriStyle} {rules : UrlRules}

theorem AbsolutePath.exists_cons (path : AbsolutePath) : ∃ cs, path.text.toList = '/' :: cs :=
  List.head?_eq_some_iff.1 path.absolute

/-- The URI gives the encoded path. -/
theorem resolveManifestPath_fileUri (path : AbsolutePath) :
    resolveManifestPath rules (style.fileUri path) = .ok (percentEncode style.safe path.text) := by
  have hencoded : ∀ c ∈ (percentEncode style.safe path.text).toList, IsPlainChar c := by
    refine forall_mem_percentEncode (fun c hc => ?_) ?_ ?_
    · exact isPlainChar_of_isUriPathChar (style.isUriPathChar_of_safe c hc)
    · decide
    · exact fun n hn => isPlainChar_of_isUriPathChar
        ((by decide : ∀ n < 16, isUriPathChar (hexDigit n) = true) n hn)
  have huri : (style.fileUri path).toList =
      "file:".toList ++ ('/' :: '/' :: (percentEncode style.safe path.text).toList) := by
    rw [UriStyle.fileUri, String.toList_append]
    rfl
  have hplain : ∀ c ∈ (style.fileUri path).toList, IsPlainChar c := by
    intro c hc
    have hscheme : ∀ d ∈ "file://".toList, IsPlainChar d := isPlainChar_of_all (by decide)
    rw [UriStyle.fileUri, String.toList_append] at hc
    exact (List.mem_append.1 hc).elim (hscheme c) (hencoded c)
  -- the encoding begins with a slash, so that no network location precedes it
  obtain ⟨cs, hcs⟩ := path.exists_cons
  have hslash : ∃ ds, (percentEncode style.safe path.text).toList = '/' :: ds := by
    refine ⟨(percentEncode style.safe (String.ofList cs)).toList, ?_⟩
    rw [← String.ofList_toList (s := path.text), hcs, percentEncode_cons style.safe_slash,
      String.toList_ofList]
  obtain ⟨ds, hds⟩ := hslash
  have hnetloc : splitNetloc ('/' :: '/' :: '/' :: ds) = ("", '/' :: ds) := by
    simp [splitNetloc]
  have hpath : urlPath rules (style.fileUri path) = .ok (percentEncode style.safe path.text) := by
    rw [urlPath_of_plain hplain, huri, splitScheme_file, hds, hnetloc, rules.checkNetloc_empty]
    have hfile : schemePath "file" ('/' :: ds) = '/' :: ds := if_neg (by decide)
    rw [Except.map, hfile, ← hds, String.ofList_toList]
  rw [resolveManifestPath_eq, hpath, Except.map, if_pos]
  intro hempty
  rw [hempty] at hds
  cases hds

/-- The URI gives the path back exactly when nothing in it is encoded. -/
theorem resolveManifestPath_fileUri_eq_iff (path : AbsolutePath) :
    resolveManifestPath rules (style.fileUri path) = .ok path.text ↔
      ∀ c ∈ path.text.toList, style.safe c = true := by
  rw [resolveManifestPath_fileUri, Except.ok.injEq, percentEncode_eq_self_iff]

/-- After two slashes, a network location reaches to the next one. -/
theorem splitNetloc_slashes {netloc rest : List Char} (hplain : ∀ c ∈ netloc, IsPlainChar c)
    (hnetloc : '/' ∉ netloc) (hrest : ∀ c, rest.head? = some c → c = '/') :
    splitNetloc ('/' :: '/' :: (netloc ++ rest)) = (String.ofList netloc, rest) := by
  have hnone : rest.takeWhile (fun c => c ≠ '/' ∧ c ≠ '?' ∧ c ≠ '#') = [] := by
    cases rest with
    | nil => rfl
    | cons c cs =>
      obtain rfl := hrest c rfl
      rfl
  have htake : (netloc ++ rest).takeWhile (fun c => c ≠ '/' ∧ c ≠ '?' ∧ c ≠ '#') = netloc := by
    rw [List.takeWhile_append_of_pos, hnone, List.append_nil]
    refine fun c hc => decide_eq_true ⟨?_, (hplain c hc).2⟩
    rintro rfl
    exact hnetloc hc
  simp only [splitNetloc, htake, List.drop_left]

/-- The resolution of a bare path, by the parts that it is split into. -/
theorem resolveManifestPath_text {path : AbsolutePath}
    (h : ∀ c ∈ path.text.toList, IsPlainChar c) {netloc : String} {rest : List Char}
    (hsplit : splitNetloc path.text.toList = (netloc, rest)) :
    resolveManifestPath rules path.text = (rules.checkNetloc netloc).map fun _ =>
      if dropParams rest = [] then path.text else String.ofList (dropParams rest) := by
  obtain ⟨cs, hcs⟩ := path.exists_cons
  have hscheme : splitScheme path.text.toList = ("", path.text.toList) := by
    rw [hcs, splitScheme_slash]
  have hparams : schemePath "" rest = dropParams rest := if_pos (by decide)
  rw [resolveManifestPath_eq, urlPath_of_plain h, hscheme, hsplit, hparams]
  cases rules.checkNetloc netloc with
  | error e => rfl
  | ok u =>
    simp only [Except.map, ne_eq, String.ofList_eq_empty_iff, ite_not]

/-- Once a network location has been split off, what is left with a slash is not the path. -/
theorem resolveManifestPath_text_ne {path : AbsolutePath}
    (h : ∀ c ∈ path.text.toList, IsPlainChar c) {netloc : String} {rest : List Char}
    (hsplit : splitNetloc path.text.toList = (netloc, rest)) (hslash : '/' ∈ rest)
    (hrest : rest.length < path.text.toList.length) :
    resolveManifestPath rules path.text ≠ .ok path.text := by
  rw [resolveManifestPath_text h hsplit, if_neg (dropParams_ne_nil hslash)]
  intro hok
  obtain ⟨_, -, htext⟩ := map_eq_ok_iff.1 hok
  have hle := length_dropParams_le rest
  rw [← htext, String.toList_ofList] at hrest
  omega

theorem splitNetloc_of_one_slash {url : List Char} (h : ∀ rest, url ≠ '/' :: '/' :: rest) :
    splitNetloc url = ("", url) := by
  unfold splitNetloc
  split
  · rename_i rest
    exact absurd rfl (h rest)
  · rfl

/-- A bare path stays as it is exactly when it is the whole of a URL. -/
theorem resolveManifestPath_text_eq_iff {path : AbsolutePath}
    (h : ∀ c ∈ path.text.toList, IsPlainChar c) :
    resolveManifestPath rules path.text = .ok path.text ↔ path.IsWhole rules := by
  unfold AbsolutePath.IsWhole
  split
  · rename_i netloc htext
    have hplain : ∀ c ∈ netloc, IsPlainChar c := fun c hc =>
      h c (htext ▸ List.mem_cons_of_mem _ (List.mem_cons_of_mem _ hc))
    by_cases hslash : '/' ∈ netloc
    · obtain ⟨before, rest, rfl, hbefore⟩ := List.eq_append_cons_of_mem hslash
      have hsplit : splitNetloc path.text.toList = (String.ofList before, '/' :: rest) := by
        rw [htext]
        refine splitNetloc_slashes (fun c hc => hplain c (List.mem_append_left _ hc)) hbefore ?_
        exact fun c hc => (Option.some.inj hc).symm
      have hlength : ('/' :: rest).length < path.text.toList.length := by
        simp only [htext, List.length_cons, List.length_append]
        omega
      exact iff_of_false (resolveManifestPath_text_ne h hsplit List.mem_cons_self hlength)
        fun hwhole => hwhole.1 hslash
    · have hsplit : splitNetloc path.text.toList = (String.ofList netloc, []) := by
        have hnil : splitNetloc ('/' :: '/' :: (netloc ++ [])) = (String.ofList netloc, []) :=
          splitNetloc_slashes hplain hslash fun c hc => by cases hc
        rwa [List.append_nil, ← htext] at hnil
      have hempty : dropParams [] = [] := rfl
      rw [resolveManifestPath_text h hsplit, if_pos hempty, and_iff_right hslash]
      cases rules.checkNetloc (String.ofList netloc) with
      | error e => exact iff_of_false (fun hok => by cases hok) fun hok => by cases hok
      | ok u => exact iff_of_true rfl rfl
  · rename_i hother
    obtain ⟨cs, hcs⟩ := path.exists_cons
    have hslash : '/' ∈ path.text.toList := by
      rw [hcs]
      exact List.mem_cons_self
    rw [resolveManifestPath_text h (splitNetloc_of_one_slash hother),
      if_neg (dropParams_ne_nil hslash), rules.checkNetloc_empty, ← dropParams_eq_self_iff,
      Except.map, Except.ok.injEq, ← String.toList_inj, String.toList_ofList]

/-- Both forms of an entry give the path back exactly for the plain paths. -/
theorem resolves_iff (path : AbsolutePath) :
    resolveManifestPath rules (style.fileUri path) = .ok path.text ∧
        resolveManifestPath rules path.text = .ok path.text ↔ style.Plain rules path := by
  rw [resolveManifestPath_fileUri_eq_iff]
  refine and_congr_right fun hsafe => resolveManifestPath_text_eq_iff fun c hc => ?_
  exact isPlainChar_of_isUriPathChar (style.isUriPathChar_of_safe c (hsafe c hc))

end Forms

/-! ## The files that are read and removed -/

namespace Request

/-- The request reads or removes a file. -/
def accessesFile : Request → Bool
  | .readFile _ => true
  | .removeFile _ => true
  | _ => false

theorem accessesFile_of_issuedForArrow {sdk : Sdk} {sink : Sink} {table : ArrowTable}
    {request : Request} (h : request.IssuedForArrow sdk sink table) :
    request.accessesFile = false := by
  rcases h with h | ⟨target, rfl⟩
  · have hinsert := isInsert_of_carries h
    cases request with
    | readFile path => cases hinsert
    | removeFile path => cases hinsert
    | _ => rfl
  · rfl

end Request

namespace World

/-- Between the two worlds, these are the requests that were sent for files. -/
def Accesses (accesses : List Request) (w w' : World) : Prop :=
  ∃ sent, w'.log = w.log ++ sent ∧ (sent.map Prod.fst).filter Request.accessesFile = accesses

variable {requests requests' : List Request} {w w₁ w' : World}

theorem Accesses.trans (h₁ : Accesses requests w w₁) (h₂ : Accesses requests' w₁ w') :
    Accesses (requests ++ requests') w w' := by
  obtain ⟨sent₁, hlog₁, rfl⟩ := h₁
  obtain ⟨sent₂, hlog₂, rfl⟩ := h₂
  refine ⟨sent₁ ++ sent₂, ?_, ?_⟩
  · rw [hlog₂, hlog₁, List.append_assoc]
  · rw [List.map_append, List.filter_append]

theorem accesses_nil (w : World) : Accesses [] w w := ⟨[], by simp, rfl⟩

theorem Sends.accesses (h : Sends (fun request => request.accessesFile = false) w w') :
    Accesses [] w w' := by
  obtain ⟨sent, hlog, hsent⟩ := h
  refine ⟨sent, hlog, List.filter_eq_nil_iff.2 fun request hrequest => ?_⟩
  obtain ⟨e, he, rfl⟩ := List.mem_map.1 hrequest
  simp [hsent e he]

end World

/-- The file requests of the step, begun at `w`, are the first ones of the plan, and all of it on a
normal return. -/
def Follows {α : Type} (plan : List Request) (m : Step α) (w : World) : Prop :=
  ∃ accesses, w.Accesses accesses (m w).2 ∧ accesses <+: plan ∧
    ∀ a, (m w).1 = .ok a → accesses = plan

section Follows

variable {α β : Type} {plan plan' : List Request} {w : World}

theorem Follows.bind {m : Step α} {f : α → Step β} (hm : Follows plan m w)
    (hf : ∀ a w', m w = (.ok a, w') → Follows plan' (f a) w') :
    Follows (plan ++ plan') (m >>= f) w := by
  obtain ⟨accesses, hacc, hpre, hall⟩ := hm
  unfold Follows
  rw [bind_apply]
  rcases hs : m w with ⟨a | e | _, w'⟩ <;> rw [hs] at hacc hall
  · obtain ⟨rest, hrest, hpre', hall'⟩ := hf a w' hs
    obtain rfl := hall a rfl
    refine ⟨accesses ++ rest, hacc.trans hrest, (List.prefix_append_right_inj _).2 hpre', ?_⟩
    exact fun b hb => congrArg (accesses ++ ·) (hall' b hb)
  · exact ⟨accesses, hacc, hpre.trans (List.prefix_append _ _), fun b hb => by cases hb⟩
  · exact ⟨accesses, hacc, hpre.trans (List.prefix_append _ _), fun b hb => by cases hb⟩

theorem follows_of_moves {m : Step α}
    (h : Moves (World.Sends fun request => request.accessesFile = false) m) : Follows [] m w :=
  ⟨[], (h w).accesses, List.prefix_rfl, fun _ _ => rfl⟩

theorem follows_lift (x : Except Exn α) : Follows [] (lift x) w := follows_of_moves (moves_lift x)

theorem follows_pure (a : α) : Follows [] (pure a) w := follows_of_moves (moves_pure a)

/-- A file request that is not answered is not sent. -/
theorem follows_send {request : Request} (h : request.accessesFile = true) :
    Follows [request] (send request) w := by
  unfold Follows
  cases hs : w.script with
  | nil =>
    rw [send_nil hs]
    exact ⟨[], w.accesses_nil, List.nil_prefix, fun a ha => by cases ha⟩
  | cons o rest =>
    rw [send_cons hs]
    exact ⟨[request], ⟨[(request, o)], rfl, by simp [h]⟩, List.prefix_rfl, fun _ _ => rfl⟩

theorem follows_readArrowBatchFile (path : String) :
    Follows [.readFile path] (readArrowBatchFile path) w :=
  (follows_send rfl).bind fun _ _ _ => follows_of_moves (moves_observe _)

theorem follows_removeFile (path : String) : Follows [.removeFile path] (removeFile path) w :=
  (follows_send rfl).bind fun _ _ _ =>
    ⟨[], ⟨[], (List.append_nil _).symm, rfl⟩, List.prefix_rfl, fun _ _ => rfl⟩

end Follows

namespace Sink

/-- The removal of a file that was read, with clean-up on. -/
def cleanUpPlan (sink : Sink) (path : String) : List Request :=
  if sink.config.cleanUpBatchFiles.getD false then [.removeFile path] else []

variable {sdk : Sdk} {naming : Naming} {rules : UrlRules} {sink : Sink} {w : World}

/-- The requests for the files of a manifest: every file is read, and removed before the next one is
read. -/
def filePlan (sink : Sink) (paths : List String) : List Request :=
  paths.flatMap fun path => .readFile path :: sink.cleanUpPlan path

theorem follows_cleanUpBatchFile {path : String} (h : path ∈ keys w.files) :
    Follows (sink.cleanUpPlan path) (sink.cleanUpBatchFile path) w := by
  unfold cleanUpPlan
  by_cases hclean : sink.config.cleanUpBatchFiles.getD false = true
  · have hremove : sink.cleanUpBatchFile path w = removeFile path w := if_pos ⟨hclean, h⟩
    rw [if_pos hclean, Follows, hremove]
    exact follows_removeFile path
  · have hskip : sink.cleanUpBatchFile path w = (.ok (), w) := if_neg fun hc => hclean hc.1
    rw [if_neg hclean, Follows, hskip]
    exact ⟨[], w.accesses_nil, List.prefix_rfl, fun _ _ => rfl⟩

/-- The round for an entry reads the file that it resolves to, and then removes it. -/
theorem follows_processArrowBatchFile {fileUri path : String}
    (hpath : resolveManifestPath rules fileUri = .ok path) :
    Follows (.readFile path :: sink.cleanUpPlan path)
      (sink.processArrowBatchFile sdk naming rules fileUri) w := by
  have hround : Follows ([] ++ ([.readFile path] ++ ([] ++ (sink.cleanUpPlan path ++ []))))
      (sink.processArrowBatchFile sdk naming rules fileUri) w := by
    refine (follows_lift _).bind fun path' w₀ hlift => ?_
    obtain ⟨hpath', rfl⟩ := lift_eq_ok.1 hlift
    obtain rfl := Except.ok.inj (hpath.symm.trans hpath')
    refine (follows_readArrowBatchFile path).bind fun table w₁ hread => ?_
    refine Follows.bind (follows_of_moves ?_) fun n w₂ hinsert => ?_
    · exact moves_insertArrowTable sdk naming sink table fun request hissued =>
        sends_send (Request.accessesFile_of_issuedForArrow hissued)
    · -- the file that was read is still there
      have hfiles := extends_readArrowBatchFile path w
      rw [hread] at hfiles
      have hext := moves_insertArrowTable sdk naming sink table
        (fun request _ => extends_send request) w₁
      rw [hinsert] at hext
      have hmem : path ∈ keys w₂.files := by
        rw [hext.1, hfiles.1, ← lookup_isSome_iff, lookup_of_readArrowBatchFile hread]
        rfl
      exact (follows_cleanUpBatchFile hmem).bind fun _ _ _ => follows_pure n
  rwa [List.nil_append, List.nil_append, List.append_nil] at hround

/-- The files of the manifest are read and removed one after the other. -/
theorem follows_processArrowBatchFilesFrom {entries paths : List String}
    (h : List.Forall₂ (fun entry path => resolveManifestPath rules entry = .ok path) entries paths)
    (total : ℤ) :
    Follows (sink.filePlan paths)
      (sink.processArrowBatchFilesFrom sdk naming rules entries total) w := by
  induction h generalizing total w with
  | nil => exact follows_pure total
  | cons hpath _ ih =>
    rw [filePlan, List.flatMap_cons]
    exact (follows_processArrowBatchFile hpath).bind fun _ _ _ => ih _

/-- Wherever the processing stops, the files of the rounds before have been removed, if clean-up is
on, and the others are as they were. -/
theorem removed_processArrowBatchFiles {entries paths : List String}
    (h : List.Forall₂ (fun entry path => resolveManifestPath rules entry = .ok path) entries paths)
    {res : Res Exn ℤ} {w' : World}
    (hrun : sink.processArrowBatchFiles sdk naming rules entries w = (res, w')) :
    ∃ done, done <+: paths ∧ (∀ total, res = .ok total → done = paths) ∧
      ∀ file, w'.files.lookup file =
        if sink.config.cleanUpBatchFiles.getD false ∧ file ∈ done then none
        else w.files.lookup file := by
  obtain ⟨-, runs, hruns⟩ := lossless_processArrowBatchFilesFrom entries 0 w hrun
  have hresolved : entries.map (resolveManifestPath rules) = paths.map Except.ok := by
    clear hrun hruns
    induction h with
    | nil => rfl
    | cons hpath _ ih => rw [List.map_cons, List.map_cons, hpath, ih]
  have hdone : runs.map FileRun.path <+: paths := by
    have hprefix := hruns.resolved
    have hok : runs.map (fun run => (Except.ok run.path : Except Exn String)) =
        (runs.map FileRun.path).map Except.ok := by
      rw [List.map_map]
      rfl
    rw [hresolved, hok] at hprefix
    exact (List.prefix_map_iff_of_injective fun _ _ he => Except.ok.inj he).1 hprefix
  refine ⟨runs.map FileRun.path, hdone, fun total hres => ?_, hruns.removed⟩
  refine hdone.eq_of_length ?_
  rw [List.length_map, (hruns.complete total hres).1, h.length_eq]

end Sink

/-! ## Manifests that name their files -/

/-- For the paths of a manifest: both forms of an entry give the path back, and processing a
manifest of such entries reads and removes exactly the files of the paths. -/
structure NamesFiles (style : UriStyle) (rules : UrlRules) (paths : List AbsolutePath) : Prop where
  resolved : ∀ path ∈ paths, resolveManifestPath rules (style.fileUri path) = .ok path.text ∧
    resolveManifestPath rules path.text = .ok path.text
  processed : ∀ entries, List.Forall₂ style.Names entries paths →
    ∀ (sdk : Sdk) (naming : Naming) (sink : Sink) (w : World),
      Follows (sink.filePlan (paths.map AbsolutePath.text))
          (sink.processArrowBatchFiles sdk naming rules entries) w ∧
        ∀ res w', sink.processArrowBatchFiles sdk naming rules entries w = (res, w') →
          ∃ done, done <+: paths.map AbsolutePath.text ∧
            (∀ total, res = .ok total → done = paths.map AbsolutePath.text) ∧
            ∀ file, w'.files.lookup file =
              if sink.config.cleanUpBatchFiles.getD false ∧ file ∈ done then none
              else w.files.lookup file

/-- Either form of an entry for a plain path resolves to the path. -/
theorem resolve_of_names {style : UriStyle} {rules : UrlRules} {entries : List String}
    {paths : List AbsolutePath} (h : List.Forall₂ style.Names entries paths)
    (hplain : ∀ path ∈ paths, style.Plain rules path) :
    List.Forall₂ (fun entry path => resolveManifestPath rules entry = .ok path) entries
      (paths.map AbsolutePath.text) := by
  induction h with
  | nil => exact .nil
  | @cons entry path _ _ hname _ ih =>
    obtain ⟨hpath, hrest⟩ := List.forall_mem_cons.1 hplain
    obtain ⟨huri, htext⟩ := (resolves_iff path).2 hpath
    refine .cons ?_ (ih hrest)
    rcases hname with rfl | rfl
    · exact huri
    · exact htext

/-- A manifest names its files exactly when all their paths are plain. -/
theorem namesFiles_iff (style : UriStyle) (rules : UrlRules) (paths : List AbsolutePath) :
    NamesFiles style rules paths ↔ ∀ path ∈ paths, style.Plain rules path := by
  constructor
  · exact fun h path hpath => (resolves_iff path).1 (h.resolved path hpath)
  · intro hplain
    refine ⟨fun path hpath => (resolves_iff path).2 (hplain path hpath), ?_⟩
    intro entries hentries sdk naming sink w
    have hpaths := resolve_of_names hentries hplain
    exact ⟨Sink.follows_processArrowBatchFilesFrom hpaths 0,
      fun res w' hrun => Sink.removed_processArrowBatchFiles hpaths hrun⟩

/-- Rules that accept every network location. -/
def UrlRules.lenient : UrlRules where
  checkNetloc _ := .ok ()
  checkNetloc_empty := rfl

/-- The URI of `/tmp/a?b` resolves to `/tmp/a%3Fb`. -/
theorem not_namesFiles_query :
    ¬ NamesFiles .asUri .lenient [⟨"/tmp/a?b", by decide, by decide⟩] := by
  intro h
  obtain ⟨huri, -⟩ := h.resolved _ List.mem_cons_self
  revert huri
  decide

/-- The bare path names another file. -/
example : resolveManifestPath .lenient "/tmp/a?b" = .ok "/tmp/a" := by decide

end TargetClickhouse
