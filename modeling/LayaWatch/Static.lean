import LayaWatch.Negotiation
import LayaWatch.Http

/-!
# Static files

`resolve` of `http/static.py`: a request path is decoded, turned into the names of candidates,
and each candidate is looked up in the file system, where a link may lead anywhere. What a file
system makes of a path is a parameter (`FileSystem`).

Whatever the path, the header and the links are, what is served is the page of a console that
was not built, or the bytes of a regular file under the root, with the type that the extension
of the candidate has, and encoded only as a sidecar that the client accepts
(`static_contained`). The rest of the file system does not matter (`resolve_outside`).
-/

namespace LayaWatch

/-- What the file system makes of paths. -/
structure FileSystem where
  /-- `Path.resolve`: no dot segments and no links are left -/
  resolve : Path → Path
  /-- `Path.is_dir` -/
  isDir : Path → Bool
  /-- `Path.is_file` -/
  isFile : Path → Bool
  /-- `Path.read_bytes`, unless it raises `OSError` -/
  readBytes : Path → Option (List ℕ)
  /-- what is resolved stays as it is -/
  resolve_resolve : ∀ path, resolve (resolve path) = resolve path

namespace Path

/-- `path.is_relative_to(root)`. -/
def isRelativeTo (path base : Path) : Bool :=
  decide (path.root = base.root) && base.names.isPrefixOf path.names

/-- `path.with_name(path.name + suffix)`, unless it raises `ValueError`. -/
def withSuffix (path : Path) (suffix : PyStr) : Option Path :=
  path.names.getLast?.map fun name => { path with names := path.names.dropLast ++ [name ++ suffix] }

end Path

namespace Static

open Negotiation (Payload acceptable)

/-! ## Percent-decoding -/

/-- The byte of two hexadecimal digits. -/
def hexByte (a b : CodePoint) : Option ℕ :=
  match CodePoint.hexValue a, CodePoint.hexValue b with
  | some high, some low => some (16 * high + low)
  | _, _ => none

/-- `unquote_to_bytes`, of ASCII. -/
def unquoteToBytes : PyStr → List ℕ
  | [] => []
  | [c] => [c.val]
  | [c, a] => [c.val, a.val]
  | c :: a :: b :: rest =>
    match if c = CodePoint.ofChar '%' then hexByte a b else none with
    | some byte => byte :: unquoteToBytes rest
    | none => c.val :: unquoteToBytes (a :: b :: rest)

/-- What a run of ASCII is decoded to. -/
def unquoteRun (run : PyStr) : PyStr := Utf8.decode [0xFFFD] (unquoteToBytes run)

/-- The rest of a text, after the start of a run of ASCII. -/
def unquoteFrom (run : PyStr) : PyStr → PyStr
  | [] => unquoteRun run
  | c :: rest =>
    if c.val < 128 then unquoteFrom (run ++ [c]) rest
    else unquoteRun run ++ c :: unquoteFrom [] rest

/-- `unquote`. -/
def unquote (path : PyStr) : PyStr := unquoteFrom [] path

/-! ## Candidates -/

/-- `_CONTENT_TYPES`. -/
def contentTypes : List (PyStr × PyStr) :=
  [(py "html", py "text/html; charset=utf-8"), (py "css", py "text/css; charset=utf-8"),
    (py "js", py "text/javascript; charset=utf-8"),
    (py "mjs", py "text/javascript; charset=utf-8"),
    (py "json", py "application/json; charset=utf-8"),
    (py "map", py "application/json; charset=utf-8"),
    (py "svg", py "image/svg+xml; charset=utf-8"), (py "png", py "image/png"),
    (py "jpg", py "image/jpeg"), (py "jpeg", py "image/jpeg"), (py "webp", py "image/webp"),
    (py "ico", py "image/x-icon"), (py "woff", py "font/woff"), (py "woff2", py "font/woff2"),
    (py "txt", py "text/plain; charset=utf-8"),
    (py "webmanifest", py "application/manifest+json; charset=utf-8")]

/-- `_DEEP_LINK_FALLBACKS`. -/
def deepLinkFallbacks : List (PyStr × PyStr) := [(py "/traces/", py "/traces/detail")]

/-- `_PRECOMPRESS_TYPES`. -/
def precompressTypes : List PyStr :=
  [py "html", py "css", py "js", py "mjs", py "json", py "map", py "svg", py "txt"]

/-- `_ENCODINGS`. -/
def encodings : List (PyStr × PyStr) := [(py "br", py ".br"), (py "gzip", py ".gz")]

/-- A path that is answered with the JSON envelope: `_API_PREFIX`, `_ADMIN_REMOVED_PREFIX`,
`_API_EXACT` and `_ADMIN_REMOVED`. -/
def isReserved (decoded : PyStr) : Bool :=
  (py "/api/").isPrefixOf decoded || (py "/admin/api/").isPrefixOf decoded ||
    [py "/predict", py "/route", py "/healthz", py "/admin"].contains decoded

/-- `HttpError(404, "not_found", "not found")`. -/
def notFound : HttpError := .plain 404 "not_found" "not found"

section

variable (T : EnvText)

/-- `_extension`. -/
def extension (path : PyStr) : PyStr :=
  let name := ((path.splitOn (CodePoint.ofChar '/')).getLast?).getD []
  -- what follows the last dot; all of the name, if it has none
  let tail := (name.reverse.takeWhile (· ≠ CodePoint.ofChar '.')).reverse
  if name.length ≤ tail.length + 1 then [] else T.lower tail

/-- `_candidates`. -/
def candidates (path : PyStr) : List PyStr :=
  let ext := extension T path
  if ext ≠ [] then if (contentTypes.lookup ext).isSome then [path] else []
  else if path.getLast? = some (CodePoint.ofChar '/') then [path ++ py "index.html"]
  else [path ++ py "/index.html", path ++ py ".html"]

/-- `_cache_control`. -/
def cacheControl (requestPath ext : PyStr) : PyStr :=
  if (py "/_next/static/").isPrefixOf requestPath then py "public, max-age=31536000, immutable"
  else if ext = py "html" then py "no-cache"
  else py "public, max-age=86400"

end

/-! ## Serving a candidate -/

section

variable (T : EnvText) (sha1 : List ℕ → PyStr) (fs : FileSystem) (root : Path)

/-- The file that a candidate names. -/
def targetOf (candidate : PyStr) : Path :=
  fs.resolve (root.child (candidate.dropWhile (· = CodePoint.ofChar '/')))

/-- It may be served: it is a regular file under the root. -/
def isServable (path : Path) : Bool := path.isRelativeTo root && fs.isFile path

/-- `available`: the sidecars there are, in the order of `_ENCODINGS`; nothing if `_sidecar`
raises. -/
def sidecars (target : Path) : List (PyStr × PyStr) → Option (List (PyStr × Path))
  | [] => some []
  | (token, suffix) :: rest =>
    match target.withSuffix suffix, sidecars target rest with
    | some sidecar, some others =>
      let candidate := fs.resolve sidecar
      if isServable fs root candidate then some ((token, candidate) :: others) else some others
    | _, _ => none

/-- The headers of a file. -/
def fileHeaders (requestPath ext contentType : PyStr) (body : List ℕ) (vary : Bool)
    (encoding : Option PyStr) : Dict PyStr PyStr :=
  let headers := ((Dict.empty.set (py "Content-Type") contentType).set (py "Cache-Control")
    (cacheControl requestPath ext)).set (py "ETag") (py "W/\"" ++ sha1 body ++ py "\"")
  let headers := if vary then headers.set (py "Vary") (py "Accept-Encoding") else headers
  match encoding with
  | some encoding => headers.set (py "Content-Encoding") encoding
  | none => headers

/-- What is read: the sidecar that was chosen, or else the target. -/
def readSource (target : Path) (chosen : Option (PyStr × Path)) :
    Option (List ℕ × Option PyStr) :=
  (chosen.bind fun e => (fs.readBytes e.2).map fun body => (body, some e.1)).or
    ((fs.readBytes target).map fun body => (body, none))

/-- `_serve_file`. -/
def serveFile (candidate requestPath accept : PyStr) : Except HttpError (Option Payload) :=
  let target := targetOf fs root candidate
  if !isServable fs root target then .ok none
  else
    let ext := extension T candidate
    match sidecars fs root target (if ext ∈ precompressTypes then encodings else []) with
    | none => .error .unhandled
    | some available =>
      let chosen := available.find? fun e => acceptable T accept e.1
      match readSource fs target chosen with
      | none => .ok none
      | some (body, encoding) =>
        match contentTypes.lookup ext with
        | none => .error .unhandled
        | some contentType => .ok (some {
            status := 200
            headers :=
              fileHeaders sha1 requestPath ext contentType body (!available.isEmpty) encoding
            body := body })

/-- The loop over candidates: the first that is served. -/
def firstServed (requestPath accept : PyStr) : List PyStr → Except HttpError (Option Payload)
  | [] => .ok none
  | candidate :: rest =>
    match serveFile T sha1 fs root candidate requestPath accept with
    | .ok none => firstServed requestPath accept rest
    | served => served

/-- The candidates of the exemplars that a deep link falls back to. -/
def fallbackCandidates (decoded : PyStr) : List PyStr :=
  deepLinkFallbacks.flatMap fun e =>
    let tail := decoded.drop e.1.length
    if e.1.isPrefixOf decoded && !tail.isEmpty && !tail.contains (CodePoint.ofChar '/') then
      candidates T e.2
    else []

/-- `_build_page`, of its text. -/
def buildPage (html : List ℕ) : Payload where
  status := 200
  headers := (Dict.empty.set (py "Content-Type") (py "text/html; charset=utf-8")).set
    (py "Cache-Control") (py "no-cache")
  body := html

/-- `resolve`; `html` is the text of `_BUILD_PAGE_HTML`. -/
def resolve (html : List ℕ) (webRoot : Path) (path accept : PyStr) :
    Except HttpError (Option Payload) :=
  let decoded := unquote path
  if isReserved decoded then .error notFound
  else if decoded.contains 0 || (decoded.splitOn (CodePoint.ofChar '/')).contains (py "..") then
    .ok none
  else
    let root := fs.resolve webRoot
    if !fs.isDir root then
      if decoded = py "/" ∨ decoded = py "/index.html" then .ok (some (buildPage html))
      else .ok none
    else
      -- the candidates of the path first, then those it falls back to
      firstServed T sha1 fs root decoded accept
        (candidates T decoded ++ fallbackCandidates T decoded)

end

/-! ## What a candidate gives -/

section

variable {T : EnvText} {sha1 : List ℕ → PyStr} {fs : FileSystem} {root target : Path}
  {candidate requestPath accept : PyStr} {resp : Payload}

/-- What is served for a candidate: the bytes of a regular file under the root. -/
structure Served (T : EnvText) (fs : FileSystem) (root : Path) (candidate accept : PyStr)
    (file : Path) (resp : Payload) : Prop where
  /-- the body is what the file has -/
  body : fs.readBytes file = some resp.body
  /-- its resolved path lies under the root -/
  inside : (fs.resolve file).isRelativeTo root = true
  /-- it is a regular file -/
  regular : fs.isFile file = true
  /-- the type is that of the extension of the candidate, which is on the list -/
  contentType : ∃ contentType, contentTypes.lookup (extension T candidate) = some contentType ∧
    resp.headers.get (py "Content-Type") = some contentType
  /-- it is encoded only if it is the sidecar of that coding, and the client accepts it -/
  encoded : ∀ token, resp.headers.get (py "Content-Encoding") = some token →
    acceptable T accept token = true ∧ ∃ suffix sidecar, (token, suffix) ∈ encodings ∧
      (targetOf fs root candidate).withSuffix suffix = some sidecar ∧ file = fs.resolve sidecar
  /-- otherwise it is the file that the candidate names -/
  identity : resp.headers.get (py "Content-Encoding") = none →
    file = targetOf fs root candidate

/-- A sidecar is a regular file under the root, under the name of the target and its suffix. -/
theorem mem_sidecars {encs : List (PyStr × PyStr)} {available : List (PyStr × Path)}
    (h : sidecars fs root target encs = some available) {e : PyStr × Path} (he : e ∈ available) :
    isServable fs root e.2 = true ∧ ∃ suffix sidecar, (e.1, suffix) ∈ encs ∧
      target.withSuffix suffix = some sidecar ∧ e.2 = fs.resolve sidecar := by
  induction encs generalizing available with
  | nil =>
    obtain rfl := Option.some.inj h
    cases he
  | cons enc encs ih =>
    obtain ⟨token, suffix⟩ := enc
    unfold sidecars at h
    split at h
    · next sidecar others hsidecar hothers =>
      have hrest : e ∈ others → isServable fs root e.2 = true ∧ ∃ suffix' sidecar,
          (e.1, suffix') ∈ (token, suffix) :: encs ∧ target.withSuffix suffix' = some sidecar ∧
          e.2 = fs.resolve sidecar := by
        intro he
        obtain ⟨hservable, suffix', sidecar', hmem, hrest⟩ := ih hothers he
        exact ⟨hservable, suffix', sidecar', List.mem_cons_of_mem _ hmem, hrest⟩
      dsimp only at h
      split at h
      · next hservable =>
        obtain rfl := Option.some.inj h
        rcases List.mem_cons.mp he with rfl | he
        · exact ⟨hservable, suffix, sidecar, List.mem_cons_self, hsidecar, rfl⟩
        · exact hrest he
      · obtain rfl := Option.some.inj h
        exact hrest he
    · cases h

/-- What was read is the sidecar that was chosen, or the target. -/
theorem readSource_cases {chosen : Option (PyStr × Path)} {body : List ℕ}
    {encoding : Option PyStr} (h : readSource fs target chosen = some (body, encoding)) :
    (∃ e, chosen = some e ∧ encoding = some e.1 ∧ fs.readBytes e.2 = some body) ∨
    (encoding = none ∧ fs.readBytes target = some body) := by
  have hidentity : ((fs.readBytes target).map fun body => (body, (none : Option PyStr))) =
      some (body, encoding) → encoding = none ∧ fs.readBytes target = some body := by
    intro h
    obtain ⟨read, hread, heq⟩ := Option.map_eq_some_iff.mp h
    obtain ⟨rfl, rfl⟩ := Prod.mk.inj heq
    exact ⟨rfl, hread⟩
  cases chosen with
  | none => exact .inr (hidentity h)
  | some e =>
    cases hread : fs.readBytes e.2 with
    | none =>
      rw [readSource, Option.bind_some, hread] at h
      exact .inr (hidentity h)
    | some read =>
      rw [readSource, Option.bind_some, hread] at h
      obtain ⟨rfl, rfl⟩ := Prod.mk.inj (Option.some.inj h)
      exact .inl ⟨e, rfl, rfl, hread⟩

/-- The headers that tell what the body is. -/
theorem fileHeaders_get (sha1 : List ℕ → PyStr) (requestPath ext contentType : PyStr)
    (body : List ℕ) (vary : Bool) (encoding : Option PyStr) :
    (fileHeaders sha1 requestPath ext contentType body vary encoding).get (py "Content-Type") =
        some contentType ∧
    (fileHeaders sha1 requestPath ext contentType body vary encoding).get
      (py "Content-Encoding") = encoding := by
  have hnames : py "Content-Type" ≠ py "Content-Encoding" ∧ py "Content-Type" ≠ py "Vary" ∧
      py "Content-Type" ≠ py "ETag" ∧ py "Content-Type" ≠ py "Cache-Control" ∧
      py "Content-Encoding" ≠ py "Vary" ∧ py "Content-Encoding" ≠ py "ETag" ∧
      py "Content-Encoding" ≠ py "Cache-Control" := by decide
  obtain ⟨h1, h2, h3, h4, h5, h6, h7⟩ := hnames
  unfold fileHeaders
  cases encoding with
  | none =>
    cases vary with
    | false => simp [Dict.get_set_ne, h1.symm, h3, h4, h6, h7]
    | true => simp [Dict.get_set_ne, h1.symm, h2, h3, h4, h5, h6, h7]
  | some encoding =>
    cases vary with
    | false => simp [Dict.get_set_ne, h1, h3, h4]
    | true => simp [Dict.get_set_ne, h1, h2, h3, h4]

/-- What is servable and resolved is where it says. -/
theorem isServable_resolve {path : Path} (h : isServable fs root (fs.resolve path) = true) :
    (fs.resolve (fs.resolve path)).isRelativeTo root = true ∧
      fs.isFile (fs.resolve path) = true := by
  rw [fs.resolve_resolve]
  exact (Bool.and_eq_true _ _).mp h

/-- `_serve_file` serves a regular file under the root, or nothing. -/
theorem serveFile_served
    (h : serveFile T sha1 fs root candidate requestPath accept = .ok (some resp)) :
    ∃ file, Served T fs root candidate accept file resp := by
  unfold serveFile at h
  dsimp only at h
  split at h
  · cases h
  · next hservable =>
    have htarget : isServable fs root (targetOf fs root candidate) = true := by
      simpa using hservable
    split at h
    · cases h
    · next available hsidecars =>
      split at h
      · cases h
      · next body encoding hread =>
        split at h
        · cases h
        · next contentType htype =>
          obtain rfl := Option.some.inj (Except.ok.inj h)
          obtain ⟨hgetType, hgetEncoding⟩ := fileHeaders_get sha1 requestPath
            (extension T candidate) contentType body (!available.isEmpty) encoding
          rcases readSource_cases hread with ⟨e, hchosen, rfl, hbytes⟩ | ⟨rfl, hbytes⟩
          · -- a sidecar is served
            have haccept := List.find?_some hchosen
            obtain ⟨hsidecar, suffix, sidecar, hmem, hsuffix, hfile⟩ :=
              mem_sidecars hsidecars (List.mem_of_find?_eq_some hchosen)
            have hencodings : (e.1, suffix) ∈ encodings := by
              split at hmem
              · exact hmem
              · cases hmem
            rw [hfile] at hsidecar
            obtain ⟨hinside, hregular⟩ := isServable_resolve hsidecar
            refine ⟨fs.resolve sidecar, hfile ▸ hbytes, hinside, hregular,
              ⟨contentType, htype, hgetType⟩, ?_, ?_⟩
            · intro token htoken
              obtain rfl := Option.some.inj (hgetEncoding.symm.trans htoken)
              exact ⟨haccept, suffix, sidecar, hencodings, hsuffix, rfl⟩
            · intro hnone
              cases hgetEncoding.symm.trans hnone
          · -- the target is served
            obtain ⟨hinside, hregular⟩ := isServable_resolve htarget
            refine ⟨targetOf fs root candidate, hbytes, hinside, hregular,
              ⟨contentType, htype, hgetType⟩, ?_, fun _ => rfl⟩
            intro token htoken
            cases hgetEncoding.symm.trans htoken

/-- What the loop serves is one of the candidates. -/
theorem firstServed_served {names : List PyStr}
    (h : firstServed T sha1 fs root requestPath accept names = .ok (some resp)) :
    ∃ candidate ∈ names, ∃ file, Served T fs root candidate accept file resp := by
  induction names with
  | nil => cases h
  | cons candidate names ih =>
    unfold firstServed at h
    split at h
    · obtain ⟨found, hmem, hserved⟩ := ih h
      exact ⟨found, List.mem_cons_of_mem _ hmem, hserved⟩
    · exact ⟨candidate, List.mem_cons_self, serveFile_served h⟩

end

/-! ## The static server -/

/-- **Static serving stays inside its root.** What is served is the page of a console that was
not built, or a file of the candidates of the path; nothing is served for a reserved path. -/
theorem static_contained (T : EnvText) (sha1 : List ℕ → PyStr) (fs : FileSystem)
    (html : List ℕ) (webRoot : Path) (path accept : PyStr) :
    (∀ resp, resolve T sha1 fs html webRoot path accept = .ok (some resp) →
      fs.isDir (fs.resolve webRoot) = false ∧ resp = buildPage html ∨
      ∃ candidate ∈ candidates T (unquote path) ++ fallbackCandidates T (unquote path),
        ∃ file, Served T fs (fs.resolve webRoot) candidate accept file resp) ∧
    (isReserved (unquote path) = true →
      resolve T sha1 fs html webRoot path accept = .error notFound) := by
  constructor
  · intro resp h
    unfold resolve at h
    dsimp only at h
    split at h
    · cases h
    · split at h
      · cases h
      · split at h
        · next hdir =>
          split at h
          · refine .inl ⟨?_, (Option.some.inj (Except.ok.inj h)).symm⟩
            simpa using hdir
          · cases h
        · exact .inr (firstServed_served h)
  · intro hreserved
    exact if_pos hreserved

/-- A site with one page. -/
def onePage : FileSystem where
  resolve := id
  isDir path := decide (path = .of (py "/srv/out"))
  isFile path := decide (path = .of (py "/srv/out/index.html"))
  readBytes path := if path = .of (py "/srv/out/index.html") then some [60] else none
  resolve_resolve _ := rfl

/-- Its page is served, from under the root. -/
theorem static_contained_page :
    ∃ resp, resolve wholeEnv (fun _ => py "0") onePage [] (.of (py "/srv/out")) (py "/") [] =
        .ok (some resp) ∧ resp.body = [60] ∧
      ∃ candidate ∈ candidates wholeEnv (unquote (py "/")) ++
          fallbackCandidates wholeEnv (unquote (py "/")),
        ∃ file, Served wholeEnv onePage (.of (py "/srv/out")) candidate [] file resp := by
  refine ⟨_, rfl, rfl, ?_⟩
  rcases (static_contained wholeEnv (fun _ => py "0") onePage [] (.of (py "/srv/out"))
    (py "/") []).1 _ rfl with ⟨hdir, -⟩ | hserved
  · cases hdir
  · exact hserved

/-! ## What is outside of the root -/

section

variable {T : EnvText} {sha1 : List ℕ → PyStr} {fs : FileSystem} {root : Path}
  {content : Path → Option (List ℕ)}

theorem sidecars_content (target : Path) (encs : List (PyStr × PyStr)) :
    sidecars { fs with readBytes := content } root target encs =
      sidecars fs root target encs := by
  induction encs with
  | nil => rfl
  | cons enc encs ih =>
    unfold sidecars
    rw [ih]
    rfl

theorem readSource_content {target : Path} {chosen : Option (PyStr × Path)}
    (htarget : content target = fs.readBytes target)
    (hchosen : ∀ e, chosen = some e → content e.2 = fs.readBytes e.2) :
    readSource { fs with readBytes := content } target chosen = readSource fs target chosen := by
  cases chosen with
  | none => simp [readSource, htarget]
  | some e => simp [readSource, htarget, hchosen e rfl]

theorem serveFile_content (h : ∀ path, isServable fs root path = true →
      content path = fs.readBytes path) (candidate requestPath accept : PyStr) :
    serveFile T sha1 { fs with readBytes := content } root candidate requestPath accept =
      serveFile T sha1 fs root candidate requestPath accept := by
  have hsame : targetOf { fs with readBytes := content } root candidate =
      targetOf fs root candidate := rfl
  unfold serveFile
  dsimp only
  rw [sidecars_content, hsame]
  change (if (!isServable fs root (targetOf fs root candidate)) = true then _ else _) = _
  by_cases htarget : isServable fs root (targetOf fs root candidate) = true
  · split
    · rfl
    · split
      · rfl
      · next available hsidecars =>
        rw [readSource_content (h _ htarget) fun e he =>
          h _ (mem_sidecars hsidecars (List.mem_of_find?_eq_some he)).1]
  · rw [Bool.not_eq_true] at htarget
    rw [htarget]
    rfl

/-- **The bytes of what is not a regular file under the root do not matter.** -/
theorem resolve_outside {webRoot : Path} (h : ∀ path,
      isServable fs (fs.resolve webRoot) path = true → content path = fs.readBytes path)
    (html : List ℕ) (path accept : PyStr) :
    resolve T sha1 { fs with readBytes := content } html webRoot path accept =
      resolve T sha1 fs html webRoot path accept := by
  have hfirst : ∀ names, firstServed T sha1 { fs with readBytes := content } (fs.resolve webRoot)
      (unquote path) accept names =
        firstServed T sha1 fs (fs.resolve webRoot) (unquote path) accept names := by
    intro names
    induction names with
    | nil => rfl
    | cons candidate names ih => rw [firstServed, firstServed, serveFile_content h, ih]
  unfold resolve
  dsimp only
  rw [hfirst]

end

end Static

end LayaWatch
