import Piclaw.AddressFilters
import Piclaw.Transcript

/-!
# Link previews

A preview fetches a page and the image that the page names. Both URLs are checked before they are
fetched, and fetching follows the redirects that servers answer with. A run is the list of its
checks and requests, in order; a server's answer may depend on all of them.
-/

namespace Piclaw.LinkPreviews
open AddressFilters Transcript

section Model

structure Url where
  href : String
  protocol : String
  hostname : String
  deriving DecidableEq

inductive Event where
  | checked (raw : String) (safe : Bool)
  | request (href : String)
  deriving DecidableEq

/-- `body` and `bytes` are absent when reading them fails. -/
structure Response where
  ok : Bool
  contentType : String
  contentLength : ℕ
  body : Option (List Char)
  bytes : Option ℕ
  deriving DecidableEq

inductive Answer where
  | redirect (location : String)
  | response (response : Response)
  | failed
  deriving DecidableEq

/-- The URL parser, the resolver and the servers; the rows of the image cache and its store. -/
structure Web where
  parse : String → Option Url
  resolve : String → String → Option Url
  lookup : String → Option (List String)
  serve : List Event → String → Answer
  maxRedirects : ℕ
  decodeHtmlEntities : List Char → String
  cached : String → Option ℕ
  storeImage : String → Response → Option ℕ

structure LinkPreview where
  url : String
  title : Option String
  description : Option String
  image : Option String
  siteName : Option String
  deriving DecidableEq

def blockedHostnames : List String :=
  ["localhost", "localhost.localdomain", "ip6-localhost", "ip6-loopback", "0.0.0.0", "::", "::1",
    "metadata.google.internal"]

def maxHtmlChars : ℕ := 200000
def maxPreviewImageBytes : ℕ := 5 * 1024 * 1024

variable (W : Web)

def isSafeUrl (raw : String) : Bool :=
  match W.parse raw with
  | none => false
  | some parsed =>
    if parsed.protocol ≠ "http:" ∧ parsed.protocol ≠ "https:" then false
    else
      let hostname := lower parsed.hostname.toList
      if hostname = [] then false
      else if String.ofList hostname ∈ blockedHostnames then false
      else if ".local".toList <:+ hostname ∨ ".internal".toList <:+ hostname then false
      else if isIP hostname ≠ 0 then !isPrivateIp hostname
      else
        match W.lookup (String.ofList hostname) with
        | none => false
        | some results =>
          if results = [] then false else results.all fun address => !isPrivateIp address.toList

/-- The redirect targets that are requested after `current`, at most `limit` of them. -/
def redirects : ℕ → String → List Event → List String
  | 0, _, _ => []
  | limit + 1, current, log =>
    match W.serve (log ++ [.request current]) current with
    | .redirect location =>
      match W.resolve location current with
      | none => []
      | some target =>
        if target.protocol = "http:" ∨ target.protocol = "https:" then
          target.href :: redirects limit target.href (log ++ [.request current])
        else []
    | _ => []

/-- The response at the end of the redirects; too many of them are an error. -/
def fetched : ℕ → String → List Event → Option Response
  | limit, current, log =>
    match W.serve (log ++ [.request current]) current with
    | .response response => some response
    | .failed => none
    | .redirect location =>
      match limit, W.resolve location current with
      | limit + 1, some target =>
        if target.protocol = "http:" ∨ target.protocol = "https:" then
          fetched limit target.href (log ++ [.request current])
        else none
      | _, _ => none

/-- `fetch(url)` without a redirect option. -/
def fetch (url : String) (log : List Event) : Option Response × List Event :=
  match W.parse url with
  | none => (none, log)
  | some parsed =>
    (fetched W W.maxRedirects parsed.href log,
      log ++ (parsed.href :: redirects W W.maxRedirects parsed.href log).map .request)

end Model

section Pages

def lowerPrefix (word : String) (cs : List Char) : Bool :=
  decide (word.toList <+: lower cs)

def isQuote (c : Char) : Bool := decide (c = '"' ∨ c = '\'')

/-- `(?:property|name)=["']key["']` at the start of a text, case-insensitively. -/
def namesKey (key : String) (cs : List Char) : Bool :=
  ["property=", "name="].any fun word =>
    lowerPrefix word cs &&
      match cs.drop word.length with
      | quote :: rest =>
        isQuote quote && lowerPrefix key rest &&
          (rest.drop key.length).head?.any isQuote
      | [] => false

/-- The first tag from here that is a meta tag for the key. -/
def metaTag (key : String) : List Char → Option (List Char)
  | [] => none
  | c :: rest =>
    let tag := (c :: rest).takeWhile (· ≠ '>')
    let inside := tag.drop "<meta".length
    if lowerPrefix "<meta" (c :: rest) && decide (tag ≠ c :: rest) &&
        (inside.tail.tails.any (namesKey key)) then some tag
    else metaTag key rest

def contentOf : List Char → Option (List Char)
  | [] => none
  | c :: rest =>
    let after := (c :: rest).drop "content=".length
    let value := after.tail.takeWhile fun d => !isQuote d
    if lowerPrefix "content=" (c :: rest) && after.head?.any isQuote && !value.isEmpty &&
        decide (value ≠ after.tail) then some value
    else contentOf rest

def extractMetaContent (html : List Char) (key : String) : Option (List Char) :=
  (metaTag key html).bind contentOf

def extractTitle : List Char → Option (List Char)
  | [] => none
  | c :: rest =>
    let tag := (c :: rest).takeWhile (· ≠ '>')
    let after := ((c :: rest).drop tag.length).tail
    let value := after.takeWhile (· ≠ '<')
    if lowerPrefix "<title" (c :: rest) && !value.isEmpty &&
        lowerPrefix "</title>" (after.drop value.length) then some value
    else extractTitle rest

variable (W : Web)

/-- A decoded and trimmed text, when it is not empty. -/
def decoded (value : Option (List Char)) : Option String :=
  (value.map fun v => trim (W.decodeHtmlEntities v)).filter fun s => decide (s ≠ "")

def normalizeImage (url baseUrl : String) : String :=
  match W.resolve url baseUrl with
  | some resolved => resolved.href
  | none => url

/-- The image that a page at `url` names. -/
def pageImage (url : String) (html : List Char) : Option String :=
  let imageRaw := ((extractMetaContent html "og:image").or
    (extractMetaContent html "twitter:image")).or (extractMetaContent html "og:image:url")
  (decoded W imageRaw).map fun image => normalizeImage W image url

def imageAccepted (response : Response) : Bool :=
  response.ok && "image/".toList.isPrefixOf (lower response.contentType.toList) &&
    decide (response.contentLength ≤ maxPreviewImageBytes) &&
    response.bytes.any fun n => decide (0 < n) && decide (n ≤ maxPreviewImageBytes)

def getCachedMediaPath (mediaId : ℕ) : String := "/media/" ++ toString mediaId

def cachePreviewImage (imageUrl : String) (log : List Event) : Option String × List Event :=
  match W.cached imageUrl with
  | some mediaId => (some (getCachedMediaPath mediaId), log)
  | none =>
    let log := log ++ [.checked imageUrl (isSafeUrl W imageUrl)]
    if isSafeUrl W imageUrl then
      let (response, log) := fetch W imageUrl log
      match response with
      | none => (none, log)
      | some response =>
        if imageAccepted response then
          ((W.storeImage imageUrl response).map getCachedMediaPath, log)
        else (none, log)
    else (none, log)

/-- The page's text, when the answer is a page. -/
def pageHtml (response : Response) : Option (List Char) :=
  if response.ok ∧ "text/html".toList <:+: response.contentType.toList then
    response.body.map (sliceUnits maxHtmlChars)
  else none

def fetchLinkPreview (url : String) : Option LinkPreview × List Event :=
  let log : List Event := [.checked url (isSafeUrl W url)]
  if isSafeUrl W url then
    let (response, log) := fetch W url log
    match response.bind pageHtml with
    | none => (none, log)
    | some html =>
      let title := decoded W (((extractMetaContent html "og:title").or
        (extractMetaContent html "twitter:title")).or (extractTitle html))
      let description := decoded W (((extractMetaContent html "og:description").or
        (extractMetaContent html "twitter:description")).or
        (extractMetaContent html "description"))
      let siteName := decoded W ((extractMetaContent html "og:site_name").or
        ((W.parse url).map fun parsed => parsed.hostname.toList))
      let (image, log) := match pageImage W url html with
        | none => (none, log)
        | some imageUrl =>
          let (stored, log) := cachePreviewImage W imageUrl log
          (some (stored.getD imageUrl), log)
      if title.isNone && description.isNone && image.isNone then (none, log)
      else (some ⟨url, title, description, image, siteName⟩, log)
  else (none, log)

end Pages

section Runs
variable {W : Web} {url imageUrl href raw : String} {log : List Event}

/-- `raw` was found safe before, and is a text of the URL `href`. -/
def ValidatedIn (W : Web) (log : List Event) (href : String) : Prop :=
  ∃ raw, Event.checked raw true ∈ log ∧ (W.parse raw).map Url.href = some href

/-- Every request goes to a URL that was found safe earlier in the run. -/
def RequestsValidated (W : Web) (log : List Event) : Prop :=
  ∀ before href after, log = before ++ .request href :: after → ValidatedIn W before href

def imageTarget (W : Web) (url : String) (response : Response) : Option String :=
  (pageHtml response).bind fun html =>
    (pageImage W url html).filter fun imageUrl => (W.cached imageUrl).isNone

/-- Servers answer the page's request with redirects to the page only, and the image's request with
redirects to the page or the image only. -/
def RedirectsKeepTo (W : Web) (url : String) : Prop :=
  ∀ page, W.parse url = some page → isSafeUrl W url = true →
    (∀ target ∈ redirects W W.maxRedirects page.href [.checked url true], target = page.href) ∧
    ∀ response log imageUrl image, fetch W url [.checked url true] = (some response, log) →
      imageTarget W url response = some imageUrl → W.parse imageUrl = some image →
      isSafeUrl W imageUrl = true →
      ∀ target ∈ redirects W W.maxRedirects image.href (log ++ [.checked imageUrl true]),
        target = page.href ∨ target = image.href

theorem isSafeUrl_parse (h : isSafeUrl W raw = true) : ∃ parsed, W.parse raw = some parsed := by
  unfold isSafeUrl at h
  cases hparse : W.parse raw with
  | none => simp [hparse] at h
  | some parsed => exact ⟨parsed, rfl⟩

theorem requestsValidated_nil : RequestsValidated W [] := by
  intro before href after h
  simp at h

/-- An event of a log that is one longer is its last or lies in the log before it. -/
theorem split_last {before after : List Event} {last e : Event}
    (h : log ++ [last] = before ++ e :: after) :
    (log = before ∧ last = e) ∨ ∃ earlier, log = before ++ e :: earlier := by
  rcases List.eq_nil_or_concat after with rfl | ⟨earlier, final, rfl⟩
  · obtain ⟨hlog, hlast⟩ := List.append_inj' h rfl
    exact Or.inl ⟨hlog, List.head_eq_of_cons_eq hlast⟩
  · have hsplit : log ++ [last] = (before ++ e :: earlier) ++ [final] := by
      rw [h]
      simp
    exact Or.inr ⟨earlier, (List.append_inj' hsplit rfl).1⟩

theorem requestsValidated_append_checked {safe : Bool} :
    RequestsValidated W (log ++ [.checked raw safe]) ↔ RequestsValidated W log := by
  constructor
  · intro h before href after hlog
    exact h before href (after ++ [.checked raw safe]) (by rw [hlog]; simp)
  · intro h before href after hlog
    rcases split_last hlog with ⟨-, hlast⟩ | ⟨earlier, hsplit⟩
    · cases hlast
    · exact h before href earlier hsplit

theorem requestsValidated_append_request :
    RequestsValidated W (log ++ [.request href]) ↔
      RequestsValidated W log ∧ ValidatedIn W log href := by
  constructor
  · intro h
    refine ⟨fun before target after hlog => ?_, h log href [] rfl⟩
    exact h before target (after ++ [.request href]) (by rw [hlog]; simp)
  · rintro ⟨h, hlast⟩ before target after hlog
    rcases split_last hlog with ⟨rfl, htarget⟩ | ⟨earlier, hsplit⟩
    · cases htarget
      exact hlast
    · exact h before target earlier hsplit

theorem validatedIn_append_request {target : String} :
    ValidatedIn W (log ++ [.request target]) href ↔ ValidatedIn W log href := by
  unfold ValidatedIn
  simp

theorem validatedIn_append_checked {safe : Bool} :
    ValidatedIn W (log ++ [.checked raw safe]) href ↔
      ValidatedIn W log href ∨ (safe = true ∧ (W.parse raw).map Url.href = some href) := by
  unfold ValidatedIn
  constructor
  · rintro ⟨found, hmem, hhref⟩
    rcases List.mem_append.mp hmem with hmem | hmem
    · exact Or.inl ⟨found, hmem, hhref⟩
    · simp only [List.mem_singleton, Event.checked.injEq] at hmem
      obtain ⟨rfl, rfl⟩ := hmem
      exact Or.inr ⟨rfl, hhref⟩
  · rintro (⟨found, hmem, hhref⟩ | ⟨rfl, hhref⟩)
    · exact ⟨found, List.mem_append_left _ hmem, hhref⟩
    · exact ⟨raw, List.mem_append_right _ (List.mem_singleton.mpr rfl), hhref⟩

/-- A row of requests is validated by the checks before it. -/
theorem requestsValidated_requests {targets : List String} :
    RequestsValidated W (log ++ targets.map .request) ↔
      RequestsValidated W log ∧ ∀ target ∈ targets, ValidatedIn W log target := by
  induction targets generalizing log with
  | nil => simp
  | cons target targets ih =>
    have hassoc : log ++ (target :: targets).map Event.request =
        (log ++ [.request target]) ++ targets.map .request := by simp
    rw [hassoc, ih, requestsValidated_append_request]
    simp only [validatedIn_append_request, List.forall_mem_cons, and_assoc]

theorem fetch_log {parsed : Url} (h : W.parse url = some parsed) :
    (fetch W url log).2 =
      log ++ (parsed.href :: redirects W W.maxRedirects parsed.href log).map .request := by
  unfold fetch
  rw [h]

theorem cachePreviewImage_log :
    (cachePreviewImage W imageUrl log).2 =
      if (W.cached imageUrl).isSome then log
      else if isSafeUrl W imageUrl = true then
        (fetch W imageUrl (log ++ [.checked imageUrl true])).2
      else log ++ [.checked imageUrl false] := by
  unfold cachePreviewImage
  cases hcached : W.cached imageUrl with
  | some mediaId => simp
  | none =>
    by_cases hsafe : isSafeUrl W imageUrl = true
    · simp only [hsafe, Option.isSome_none, Bool.false_eq_true, if_true, if_false]
      cases (fetch W imageUrl (log ++ [.checked imageUrl true])).1 with
      | none => rfl
      | some response =>
        simp only
        split_ifs <;> rfl
    · simp [hsafe]

/-- The events of a preview of a safe page: its own, then those of the image that is not cached. -/
theorem fetchLinkPreview_log (h : isSafeUrl W url = true) :
    (fetchLinkPreview W url).2 =
      match (fetch W url [.checked url true]).1.bind (imageTarget W url) with
      | none => (fetch W url [.checked url true]).2
      | some imageUrl => (cachePreviewImage W imageUrl (fetch W url [.checked url true]).2).2 := by
  unfold fetchLinkPreview imageTarget
  simp only [h, if_true]
  generalize fetch W url [.checked url true] = answer
  obtain ⟨response, log⟩ := answer
  cases response with
  | none => rfl
  | some response =>
    simp only [Option.bind_some]
    cases hhtml : pageHtml response with
    | none => rfl
    | some html =>
      simp only [Option.bind_some]
      cases himage : pageImage W url html with
      | none =>
        simp only [Option.filter_none]
        split_ifs <;> rfl
      | some imageUrl =>
        simp only [Option.filter_some]
        cases hcached : W.cached imageUrl with
        | none => simp
        | some mediaId =>
          simp [cachePreviewImage_log, hcached]

/-- A checked URL is fetched with validated requests when its redirects lead to validated URLs. -/
theorem fetch_validated {parsed : Url} (h : W.parse url = some parsed) :
    RequestsValidated W (fetch W url (log ++ [.checked url true])).2 ↔
      RequestsValidated W log ∧
      ∀ target ∈ redirects W W.maxRedirects parsed.href (log ++ [.checked url true]),
        ValidatedIn W log target ∨ target = parsed.href := by
  rw [fetch_log h, requestsValidated_requests, requestsValidated_append_checked,
    List.forall_mem_cons]
  simp only [validatedIn_append_checked, h, Option.map_some, Option.some.injEq]
  simp only [or_true, true_and, eq_comm]

theorem validatedIn_nil : ¬ ValidatedIn W [] href := by
  rintro ⟨raw, hmem, -⟩
  cases hmem

/-- After the page, exactly the page's own URL is validated. -/
theorem validatedIn_page {page : Url} (h : W.parse url = some page) :
    ValidatedIn W (fetch W url [.checked url true]).2 href ↔ href = page.href := by
  rw [fetch_log h]
  unfold ValidatedIn
  constructor
  · rintro ⟨raw, hmem, hhref⟩
    simp only [List.map_cons, List.cons_append, List.nil_append, List.mem_cons, Event.checked.injEq,
      reduceCtorEq, List.mem_map, and_false, exists_false, or_false, and_true] at hmem
    subst hmem
    rw [h] at hhref
    exact (Option.some.inj hhref).symm
  · rintro rfl
    exact ⟨url, by simp, by rw [h]; rfl⟩

theorem imageTarget_uncached {response : Response}
    (h : imageTarget W url response = some imageUrl) : W.cached imageUrl = none := by
  obtain ⟨html, -, h⟩ := Option.bind_eq_some_iff.mp h
  have hcached := (Option.filter_eq_some_iff.mp h).2
  exact Option.isNone_iff_eq_none.mp hcached

/-- A preview contacts only URLs that were found safe exactly when servers redirect its requests to
the page or, for the image, to the page or the image. -/
theorem fetchLinkPreview_validated_iff (W : Web) (url : String) :
    RequestsValidated W (fetchLinkPreview W url).2 ↔ RedirectsKeepTo W url := by
  by_cases hsafe : isSafeUrl W url = true
  · obtain ⟨page, hpage⟩ := isSafeUrl_parse hsafe
    have hfetch := @fetch_validated W url [] page hpage
    simp only [List.nil_append, validatedIn_nil, false_or, requestsValidated_nil,
      true_and] at hfetch
    have hkeep : RedirectsKeepTo W url ↔
        RequestsValidated W (fetch W url [.checked url true]).2 ∧
        ∀ response log imageUrl image, fetch W url [.checked url true] = (some response, log) →
          imageTarget W url response = some imageUrl → W.parse imageUrl = some image →
          isSafeUrl W imageUrl = true →
          ∀ target ∈ redirects W W.maxRedirects image.href (log ++ [.checked imageUrl true]),
            target = page.href ∨ target = image.href := by
      unfold RedirectsKeepTo
      rw [hfetch]
      constructor
      · intro h
        exact h page hpage hsafe
      · intro h found hfound _
        rw [hpage] at hfound
        cases hfound
        exact h
    have hvalidated (href : String) :
        ValidatedIn W (fetch W url [.checked url true]).2 href ↔ href = page.href :=
      validatedIn_page hpage
    rw [hkeep, fetchLinkPreview_log hsafe]
    generalize fetch W url [.checked url true] = answer at hvalidated ⊢
    obtain ⟨response, log⟩ := answer
    cases htarget : response.bind (imageTarget W url) with
    | none =>
      refine ⟨fun h => ⟨h, ?_⟩, fun h => h.1⟩
      rintro found _ imageUrl _ ⟨⟩ himage _ _
      rw [Option.bind_some, himage] at htarget
      cases htarget
    | some imageUrl =>
      obtain ⟨found, rfl, himage⟩ := Option.bind_eq_some_iff.mp htarget
      simp only [cachePreviewImage_log, imageTarget_uncached himage, Option.isSome_none,
        Bool.false_eq_true, if_false]
      by_cases himageSafe : isSafeUrl W imageUrl = true
      · obtain ⟨image, hparse⟩ := isSafeUrl_parse himageSafe
        rw [if_pos himageSafe, fetch_validated hparse]
        simp only [hvalidated]
        refine and_congr_right fun _ => ⟨fun h => ?_, fun h => ?_⟩
        · rintro _ _ _ _ ⟨⟩ hother hotherParse _
          rw [himage] at hother
          cases hother
          rw [hparse] at hotherParse
          cases hotherParse
          exact h
        · exact h found log imageUrl image rfl himage hparse himageSafe
      · rw [if_neg himageSafe, requestsValidated_append_checked]
        refine ⟨fun h => ⟨h, ?_⟩, fun h => h.1⟩
        rintro _ _ _ _ ⟨⟩ hother _ hotherSafe
        rw [himage] at hother
        cases hother
        exact absurd hotherSafe himageSafe
  · have hlog : (fetchLinkPreview W url).2 = [] ++ [.checked url false] := by
      unfold fetchLinkPreview
      simp [hsafe]
    rw [hlog, requestsValidated_append_checked]
    refine ⟨fun _ page _ h => absurd h hsafe, fun _ => requestsValidated_nil⟩

end Runs

section Samples

/-- A public page that redirects to the host's metadata service. -/
def redirectingWeb : Web where
  parse raw :=
    if raw = "http://example.com/" then some ⟨"http://example.com/", "http:", "example.com"⟩
    else none
  resolve _ _ := some ⟨"http://169.254.169.254/", "http:", "169.254.169.254"⟩
  lookup _ := some ["93.184.216.34"]
  serve _ href :=
    if href = "http://example.com/" then .redirect "http://169.254.169.254/" else .failed
  maxRedirects := 20
  decodeHtmlEntities := String.ofList
  cached _ := none
  storeImage _ _ := none

/-- The metadata service is contacted although only the page was found safe. -/
theorem redirect_contacts_metadata :
    (fetchLinkPreview redirectingWeb "http://example.com/").2 =
        [.checked "http://example.com/" true, .request "http://example.com/",
          .request "http://169.254.169.254/"] ∧
      ¬ RequestsValidated redirectingWeb
        (fetchLinkPreview redirectingWeb "http://example.com/").2 := by
  have hlog : (fetchLinkPreview redirectingWeb "http://example.com/").2 =
      [.checked "http://example.com/" true, .request "http://example.com/",
        .request "http://169.254.169.254/"] := by decide +kernel
  refine ⟨hlog, fun h => ?_⟩
  obtain ⟨raw, hmem, hhref⟩ := h [.checked "http://example.com/" true,
    .request "http://example.com/"] "http://169.254.169.254/" [] (by rw [hlog]; rfl)
  simp only [List.mem_cons, Event.checked.injEq, and_true, reduceCtorEq, List.not_mem_nil,
    or_false] at hmem
  subst hmem
  revert hhref
  decide

end Samples

end Piclaw.LinkPreviews
