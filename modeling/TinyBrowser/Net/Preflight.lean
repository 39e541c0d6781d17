import TinyBrowser.Net.Chain

/-!
# The preflight gate

A `cors`-tainted hop sends its request when the request is simple (`Hop.Simple`) or right after a
preflight that grants it (`Preflight.Grants`); the request that goes out has the fields that were
looked at and those of `writtenFields`. Its answer is read, or the redirect in it followed, only
after a CORS check for the origin value of the chain (`originValue`).
-/

namespace TinyBrowser
open Lib Lib.EmitLoop

namespace Cors

/-! ### Unsafe fields -/

/-- The fields that are not forbidden to the caller. -/
def ownFields (headers : HeaderMap) : List (Text × Bytes) :=
  headers.iter.filter fun field => !isForbiddenRequestHeaderName field.1

/-- The bytes of the safelisted values. -/
def safelistedSize (headers : HeaderMap) : Nat :=
  (((ownFields headers).filter fun field => isCorsSafelistedRequestHeader field.1 field.2).map
    fun field => field.2.length).sum

/-- A field that is not safelisted, or any when the safelisted ones are too long. -/
structure IsUnsafe (headers : HeaderMap) (field : Text × Bytes) : Prop where
  own : field ∈ ownFields headers
  unsafely : isCorsSafelistedRequestHeader field.1 field.2 = false ∨ 1024 < safelistedSize headers

theorem mem_destutter {name : Text} {names : List Text} :
    name ∈ names.destutter (· ≠ ·) ↔ name ∈ names := by
  cases names with
  | nil => rfl
  | cons first names =>
    rw [List.destutter_cons']
    induction names generalizing first with
    | nil => rfl
    | cons second names ih =>
      rw [List.destutter'_cons]
      split_ifs with hne
      · rw [List.mem_cons, ih, ← List.mem_cons]
      · rw [ih, not_not.mp hne, List.mem_cons, List.mem_cons, List.mem_cons, or_self_left]

theorem mem_unsafeRequestHeaderNames {headers : HeaderMap} {name : Text} :
    name ∈ unsafeRequestHeaderNames headers ↔
      ∃ field, IsUnsafe headers field ∧ field.1.toAsciiLowercase = name := by
  have hnot : name ∈ ((ownFields headers).filter fun field =>
        !isCorsSafelistedRequestHeader field.1 field.2).map (fun field => field.1.toAsciiLowercase) ↔
      ∃ field ∈ ownFields headers, isCorsSafelistedRequestHeader field.1 field.2 = false ∧
        field.1.toAsciiLowercase = name := by
    simp only [List.mem_map, List.mem_filter, Bool.not_eq_true', and_assoc]
  have hsafe : name ∈ ((ownFields headers).filter fun field =>
        isCorsSafelistedRequestHeader field.1 field.2).map (fun field => field.1.toAsciiLowercase) ↔
      ∃ field ∈ ownFields headers, isCorsSafelistedRequestHeader field.1 field.2 = true ∧
        field.1.toAsciiLowercase = name := by
    simp only [List.mem_map, List.mem_filter, and_assoc]
  show name ∈ (List.insertionSort (· ≤ ·) (if 1024 < safelistedSize headers then _ else _)).destutter
    (· ≠ ·) ↔ _
  rw [mem_destutter, List.mem_insertionSort]
  constructor
  · intro h
    split_ifs at h with hsize
    · rcases List.mem_append.mp h with h | h
      · obtain ⟨field, hown, hno, hname⟩ := hnot.mp h
        exact ⟨field, ⟨hown, .inl hno⟩, hname⟩
      · obtain ⟨field, hown, -, hname⟩ := hsafe.mp h
        exact ⟨field, ⟨hown, .inr hsize⟩, hname⟩
    · obtain ⟨field, hown, hno, hname⟩ := hnot.mp h
      exact ⟨field, ⟨hown, .inl hno⟩, hname⟩
  · rintro ⟨field, ⟨hown, hbyte⟩, hname⟩
    split_ifs with hsize
    · refine List.mem_append.mpr ?_
      cases hlisted : isCorsSafelistedRequestHeader field.1 field.2 with
      | false => exact .inl (hnot.mpr ⟨field, hown, hlisted, hname⟩)
      | true => exact .inr (hsafe.mpr ⟨field, hown, hlisted, hname⟩)
    · exact hnot.mpr ⟨field, hown, hbyte.resolve_right hsize, hname⟩

end Cors

/-- The request may go to another origin without a preflight. -/
structure Hop.Simple (hop : Hop) : Prop where
  method : hop.method = .get ∨ hop.method = .head ∨ hop.method = .post
  safelisted : ∀ field ∈ Cors.ownFields hop.headers,
    Cors.isCorsSafelistedRequestHeader field.1 field.2 = true
  size : ((Cors.ownFields hop.headers).map fun field => field.2.length).sum ≤ 1024

/-- The answer of a preflight sent for `origin` grants the request of the hop. -/
structure Preflight.Grants (x : NetCrates) (settings : CorsSettings) (origin : Text) (hop : Hop)
    (p : Preflight) : Prop where
  sentMethod : p.request.method = .options
  sentOrigin : p.request.headers.getAll "origin".toList = [Bytes.ofText origin]
  status : 200 ≤ p.status ∧ p.status ≤ 299
  check : Cors.corsCheck p.headers origin settings.credentials.includes = true
  method : ∃ methods,
    Cors.listMethods x.http p.headers "access-control-allow-methods".toList = some methods ∧
      (hop.method.token ∈ methods ∨ (hop.method = .get ∨ hop.method = .head ∨ hop.method = .post) ∨
        settings.credentials.includes = false ∧ "*".toList ∈ methods)
  headers : ∃ allowed,
    Cors.listHeaderNames x.http p.headers "access-control-allow-headers".toList = some allowed ∧
      ∀ field, Cors.IsUnsafe hop.headers field → field.1.toAsciiLowercase ∈ allowed ∨
        settings.credentials.includes = false ∧ "*".toList ∈ allowed ∧
          field.1.toAsciiLowercase ≠ "authorization".toList

theorem isCorsSafelistedMethod_iff {method : Method} : Cors.isCorsSafelistedMethod method = true ↔
    method = .get ∨ method = .head ∨ method = .post := by
  simp only [Cors.isCorsSafelistedMethod, Bool.or_eq_true, decide_eq_true_eq, or_assoc]

theorem simple_of_needsPreflight {hop : Hop}
    (h : Cors.needsPreflight hop.method (Cors.unsafeRequestHeaderNames hop.headers) = false) :
    hop.Simple := by
  rw [Cors.needsPreflight, Bool.or_eq_false_iff, Bool.not_eq_false', decide_eq_false_iff_not,
    not_not] at h
  obtain ⟨hmethod, hnone⟩ := h
  have hsafe : ∀ field, ¬ Cors.IsUnsafe hop.headers field := by
    intro field hbyte
    have hmem := Cors.mem_unsafeRequestHeaderNames.mpr ⟨field, hbyte, rfl⟩
    rw [hnone] at hmem
    cases hmem
  have hlisted : ∀ field ∈ Cors.ownFields hop.headers,
      Cors.isCorsSafelistedRequestHeader field.1 field.2 = true := by
    intro field hown
    rw [← Bool.not_eq_false]
    exact fun hno => hsafe field ⟨hown, .inl hno⟩
  refine ⟨isCorsSafelistedMethod_iff.mp hmethod, hlisted, ?_⟩
  -- all own fields are safelisted, so their size is the one that was looked at
  have hsize : Cors.safelistedSize hop.headers =
      ((Cors.ownFields hop.headers).map fun field => field.2.length).sum := by
    rw [Cors.safelistedSize, List.filter_eq_self.mpr hlisted]
  rw [← hsize]
  by_contra hlong
  rw [not_le] at hlong
  cases hown : Cors.ownFields hop.headers with
  | nil =>
    rw [hsize, hown] at hlong
    cases hlong
  | cons field fields => exact hsafe field ⟨by rw [hown]; exact List.mem_cons_self, .inr hlong⟩

/-- What `preflight_ok` looks at. -/
theorem preflightOk_eq_true {http : Http} {status : Nat} {headers : HeaderMap} {origin : Text}
    {credentialsInclude : Bool} {method : Method} {unsafeNames : List Text}
    (h : Cors.preflightOk http status headers origin credentialsInclude method unsafeNames = true) :
    (200 ≤ status ∧ status ≤ 299) ∧ Cors.corsCheck headers origin credentialsInclude = true ∧
      (∃ methods, Cors.listMethods http headers "access-control-allow-methods".toList = some methods ∧
        (method.token ∈ methods ∨ Cors.isCorsSafelistedMethod method = true ∨
          credentialsInclude = false ∧ "*".toList ∈ methods)) ∧
      ∃ allowed, Cors.listHeaderNames http headers "access-control-allow-headers".toList = some allowed ∧
        ∀ name ∈ unsafeNames, name ∈ allowed ∨
          credentialsInclude = false ∧ "*".toList ∈ allowed ∧ name ≠ "authorization".toList := by
  unfold Cors.preflightOk at h
  split_ifs at h with hstatus hcheck
  rw [Bool.not_eq_true', ← Bool.not_eq_true, not_not, Bool.and_eq_true, decide_eq_true_eq,
    decide_eq_true_eq] at hstatus
  rw [Bool.not_eq_true', ← Bool.not_eq_true, not_not] at hcheck
  split at h
  · cases h
  · rename_i methods hmethods
    split_ifs at h with hmethod
    split at h
    · cases h
    · rename_i allowed hallowed
      split_ifs at h with hauth
      refine ⟨hstatus, hcheck, ⟨methods, hmethods, ?_⟩, allowed, hallowed, fun name hname => ?_⟩
      · simp only [Bool.not_eq_true', ← Bool.not_eq_true, not_not, Bool.or_eq_true, Bool.and_eq_true,
          decide_eq_true_eq, or_assoc] at hmethod
        rcases hmethod with h | h | h
        · exact .inl h
        · exact .inr (.inl h)
        · exact .inr (.inr ⟨by simpa using h.1, h.2⟩)
      · rw [Bool.or_eq_true, Bool.and_eq_true, List.all_eq_true] at h
        rcases h with ⟨hplain, hstar⟩ | hall
        · by_cases hmem : name ∈ allowed
          · exact .inl hmem
          · refine .inr ⟨by simpa using hplain, of_decide_eq_true hstar, ?_⟩
            rintro rfl
            rw [Bool.and_eq_true, decide_eq_true_eq, decide_eq_true_eq] at hauth
            exact hauth ⟨hname, hmem⟩
        · exact .inl (of_decide_eq_true (hall name hname))

/-! ### The request of a hop -/

theorem headerToStr_ofText {s t : Text} (h : headerToStr (Bytes.ofText s) = some t) : t = s := by
  unfold headerToStr at h
  split_ifs at h with hvisible
  rw [← Option.some.inj h]
  refine Bytes.ofText_ascii fun b hb => ?_
  have hb := List.all_eq_true.mp hvisible b hb
  rw [Bool.or_eq_true, Bool.and_eq_true, decide_eq_true_eq, decide_eq_true_eq,
    decide_eq_true_eq] at hb
  rcases hb with ⟨-, hb⟩ | hb
  · exact UInt8.lt_trans hb (by decide)
  · rw [hb]
    decide

theorem getAll_preflightReferer {x : NetCrates} {headers preflight preflight' : HeaderMap}
    {name : Text} (h : preflightReferer x headers preflight = some preflight')
    (hname : HeaderName.referer.is name = false) :
    preflight'.getAll name = preflight.getAll name := by
  unfold preflightReferer at h
  split at h
  · rw [← Option.some.inj h]
  · obtain ⟨referrer, -, h⟩ := Option.bind_eq_some_iff.mp h
    obtain ⟨value, -, h⟩ := Option.bind_eq_some_iff.mp h
    rw [← Option.some.inj h]
    exact HeaderMap.getAll_append_of_not preflight value hname

theorem getAll_origin_preflightHeaders (method : Method) (unsafeNames : List Text) (origin : Bytes) :
    (Cors.preflightHeaders method unsafeNames origin).getAll "origin".toList = [origin] := by
  unfold Cors.preflightHeaders
  dsimp only
  split_ifs
  · rfl
  · rw [HeaderMap.getAll_append_of_not _ _ (by decide)]
    rfl

/-- The hop may send its request for `origin`: it is simple, or its preflight granted it. -/
def Hop.Gated (x : NetCrates) (settings : CorsSettings) (origin : Text) (wire : Url)
    (answer : Except NetError (Nat × HeaderMap)) (hop : Hop) (preflight : Option Preflight) : Prop :=
  hop.Simple ∨ ∃ p, preflight = some p ∧ p.request.url = wire ∧
    answer = .ok (p.status, p.headers) ∧ p.Grants x settings origin hop

section Hops
variable {x : NetCrates} {agent : Agent} {settings : CorsSettings} {hop : Hop} {wire : Url}
  {headers : HeaderMap} {answer : Except NetError (Nat × HeaderMap)} {preflight : Option Preflight}

theorem corsPreflight_ok {origin : Text}
    (h : corsPreflight x agent settings (Bytes.ofText origin) hop hop.headers wire answer =
      .ok preflight) : hop.Gated x settings origin wire answer preflight := by
  unfold corsPreflight at h
  dsimp only at h
  split_ifs at h with hneeds
  · exact .inl (simple_of_needsPreflight (by simpa using hneeds))
  · right
    obtain ⟨sent, hsent, h⟩ := bind_eq_ok.1 h
    obtain ⟨fields, hfields, h⟩ := bind_eq_ok.1 h
    obtain ⟨⟨status, answered⟩, hanswer, h⟩ := bind_eq_ok.1 h
    have hsent : sent = origin := headerToStr_ofText (orReject_eq_ok.1 hsent)
    dsimp only at h
    split_ifs at h with hok
    cases h
    rw [hsent] at hok
    obtain ⟨hstatus, hcheck, ⟨methods, hmethods, hmethod⟩, allowed, hallowed, hnames⟩ :=
      preflightOk_eq_true hok
    refine ⟨_, rfl, rfl, hanswer, ?_⟩
    refine {
      sentMethod := rfl
      sentOrigin := ?_
      status := hstatus
      check := hcheck
      method := ⟨methods, hmethods, ?_⟩
      headers := ⟨allowed, hallowed, fun field hbyte =>
        hnames _ (Cors.mem_unsafeRequestHeaderNames.mpr ⟨field, hbyte, rfl⟩)⟩ }
    · dsimp only
      rw [HeaderMap.getAll_append_of_not _ _ (by decide),
        getAll_preflightReferer (orReject_eq_ok.1 hfields) (by decide),
        getAll_origin_preflightHeaders]
    · rwa [isCorsSafelistedMethod_iff] at hmethod

theorem applyCorsRequest_ok
    (h : applyCorsRequest x agent settings hop wire hop.headers answer = .ok (headers, preflight))
    (hcors : hop.responseType = .cors) :
    hop.Gated x settings (hop.serializedOrigin x settings) wire answer preflight := by
  unfold applyCorsRequest at h
  obtain ⟨originHeader, horigin, h⟩ := bind_eq_ok.1 h
  obtain ⟨sent, hsent, h⟩ := bind_eq_ok.1 h
  cases h
  unfold hopPreflight at hsent
  rw [if_pos hcors] at hsent
  have horigin := orReject_eq_ok.1 horigin
  unfold headerFromStr at horigin
  split_ifs at horigin
  rw [← Option.some.inj horigin] at hsent
  exact corsPreflight_ok hsent

end Hops

/-- A prepared `cors`-tainted hop is gated, and its request is that of the hop. -/
theorem prepareHop_gated {x : AgentCrates} {agent : Agent} {dial : Dial} {url : Url} {hop : Hop}
    {crossSiteRedirect : Bool} {deadline : Option Instant} {world : HopWorld} {out : Outbound}
    (h : prepareHop x agent dial url hop crossSiteRedirect deadline world = .ok out) :
    out.wire.method = out.hop.method ∧ (out.hop.responseType = .cors →
      out.hop.Gated x.toNetCrates dial.cors (out.hop.serializedOrigin x.toNetCrates dial.cors)
        out.wire.url world.preflight out.preflight) := by
  unfold prepareHop at h
  obtain ⟨tainted, -, h⟩ := bind_eq_ok.1 h
  obtain ⟨-, -, h⟩ := bind_eq_ok.1 h
  obtain ⟨⟨fromCors, preflight⟩, hgate, h⟩ := bind_eq_ok.1 h
  obtain ⟨outbound, -, h⟩ := bind_eq_ok.1 h
  obtain ⟨final, -, h⟩ := bind_eq_ok.1 h
  cases h
  exact ⟨rfl, applyCorsRequest_ok hgate⟩

/-! ### The origin value of a chain -/

/-- Whether a chain has left an origin other than that of the request for yet another one. -/
def leavesForeign (settings : CorsSettings) : List Url → Bool
  | [] => false
  | [_] => false
  | url :: next :: urls => (url.origin ≠ next.origin && settings.origin ≠ url.origin) ||
      leavesForeign settings (next :: urls)

theorem leavesForeign_concat (settings : CorsSettings) (urls : List Url) (url : Url) :
    leavesForeign settings (urls ++ [url]) = (leavesForeign settings urls ||
      urls.getLast?.any fun previous =>
        previous.origin ≠ url.origin && settings.origin ≠ previous.origin) := by
  induction urls with
  | nil => rfl
  | cons first urls ih =>
    cases urls with
    | nil =>
      show ((_ && _) || false) = (false || (_ && _))
      rw [Bool.or_false, Bool.false_or]
      rfl
    | cons second urls =>
      rw [List.getLast?_cons_cons]
      show ((_ && _) || leavesForeign settings (second :: urls ++ [url])) = _
      rw [ih, ← Bool.or_assoc]
      rfl

/-- What a chain sends as its origin. -/
def originValue (x : NetCrates) (settings : CorsSettings) (urls : List Url) : Text :=
  if leavesForeign settings urls then "null".toList else x.asciiSerialization settings.origin

/-- What a hop remembers of the chain before it. -/
structure OriginInv (settings : CorsSettings) (past : List HopRecord) (state : SendState) :
    Prop where
  followed : state.followed = past.length
  previousUrl : state.hop.previousUrl = (past.map HopRecord.url).getLast?
  originTainted : state.hop.originTainted = leavesForeign settings (past.map HopRecord.url)

theorem applyTainting_origin {dial : Dial} {url : Url} {hop hop' : Hop}
    (h : applyTainting dial url hop = .ok hop') : hop'.previousUrl = some url ∧
      hop'.originTainted = (hop.originTainted || hop.previousUrl.any fun previous =>
        previous.origin ≠ url.origin && dial.cors.origin ≠ previous.origin) := by
  unfold applyTainting at h
  split at h
  · cases h
  · cases h
    exact ⟨rfl, rfl⟩

theorem redirect_origin {x : NetCrates} {dial : Dial} {state state' : SendState} {hop : Hop}
    {status : Nat} {policy : Option ReferrerPolicy} {next : Url}
    (h : state.redirect x dial hop status policy next = .ok state') :
    state'.hop.previousUrl = hop.previousUrl ∧ state'.hop.originTainted = hop.originTainted := by
  unfold SendState.redirect at h
  obtain ⟨headers, -, h⟩ := bind_eq_ok.1 h
  cases h
  show (hop.toGet status).previousUrl = _ ∧ (hop.toGet status).originTainted = _
  unfold Hop.toGet
  split_ifs
  · exact ⟨rfl, rfl⟩
  · exact ⟨rfl, rfl⟩

section Steps
variable {x : AgentCrates} {agent : Agent} {dial : Dial} {deadline : Option Instant}
  {worlds : Nat → HopWorld} {past : List HopRecord} {state state' : SendState} {hop : Hop}
  {record : HopRecord}

theorem OriginInv.tainted (hI : OriginInv dial.cors past state)
    (h : applyTainting dial state.url state.hop = .ok hop) :
    hop.originTainted = leavesForeign dial.cors (urlsTo past state.url) := by
  rw [(applyTainting_origin h).2, hI.originTainted, hI.previousUrl]
  exact (leavesForeign_concat dial.cors _ _).symm

theorem OriginInv.serialized (hI : OriginInv dial.cors past state)
    (h : applyTainting dial state.url state.hop = .ok hop) :
    hop.serializedOrigin x.toNetCrates dial.cors =
      originValue x.toNetCrates dial.cors (urlsTo past state.url) := by
  unfold Hop.serializedOrigin originValue
  rw [hI.tainted h]

theorem OriginInv.next (hI : OriginInv dial.cors past state) {out : List HopRecord}
    (h : hopTurn x agent dial deadline worlds state = (out, .next state')) :
    OriginInv dial.cors (past ++ out) state' := by
  obtain ⟨record, answer, status, location, policy, next, rfl, -, hsent, -, hredirect⟩ :=
    hopTurn_next h
  obtain ⟨hp, hurl, -, -, -⟩ := exchange_ok hsent
  obtain ⟨hprevious, htainted⟩ := redirect_origin hredirect
  refine {
    followed := ?_
    previousUrl := ?_
    originTainted := ?_ }
  · rw [(redirect_ok hredirect).followed, hI.followed, List.length_append, List.length_singleton]
  · rw [hprevious, (applyTainting_origin hp.tainted).1, List.map_append, List.map_singleton,
      List.getLast?_concat, hurl]
  · rw [htainted, hI.tainted hp.tainted, List.map_append, List.map_singleton, hurl]
    rfl

end Steps

theorem OriginInv.start {x : NetCrates} {agent : Agent} {request : Request} {state : SendState}
    (h : request.start x agent = .ok state) : OriginInv request.cors [] state := by
  unfold Request.start at h
  obtain ⟨headers, -, h⟩ := bind_eq_ok.1 h
  cases h
  exact ⟨rfl, rfl, rfl⟩

/-! ### The answer of a hop -/

section Answers
variable {x : NetCrates} {agent : Agent} {dial : Dial} {state : SendState} {hop : Hop}
  {response : Response} {current : Url} {outcome : HopOutcome}

/-- The CORS check that a `cors`-tainted hop asks of its response. -/
def Hop.Checked (x : NetCrates) (dial : Dial) (hop : Hop) (headers : HeaderMap) : Prop :=
  hop.responseType = .cors →
    Cors.corsCheck headers (hop.serializedOrigin x dial.cors) dial.credentialsInclude = true

theorem corsGate_ok (h : corsGate x response dial hop = .ok ()) :
    hop.Checked x dial response.headers := by
  intro hcors
  unfold corsGate at h
  rw [if_neg (not_not.mpr hcors)] at h
  split_ifs at h with hcheck
  exact hcheck

theorem classifyResponse_checked (h : classifyResponse x response current dial hop = .ok outcome) :
    hop.Checked x dial response.headers := by
  unfold classifyResponse at h
  obtain ⟨⟨⟩, hgate, -⟩ := bind_eq_ok.1 h
  exact corsGate_ok hgate

theorem answerTurn_checked {flow : HopFlow} (h : answerTurn x agent dial state hop response = flow)
    (hflow : ∀ error, flow ≠ .done (.error error)) : hop.Checked x dial response.headers := by
  rw [← h] at hflow
  unfold answerTurn at hflow
  dsimp only at hflow
  split at hflow
  · cases hgate : corsGate x { response with
        redirectCount := state.followed
        referrer := state.determined } dial hop with
    | error error => exact absurd (by rw [hgate]; rfl) (hflow error)
    | ok =>
      have hchecked := corsGate_ok hgate
      exact hchecked
  · split at hflow
    · exact absurd rfl (hflow _)
    all_goals
      rename_i hclass
      have hchecked := classifyResponse_checked hclass
      exact hchecked

theorem answerTurn_own {result : Response}
    (h : answerTurn x agent dial state hop response = .done (.ok result)) :
    result.headers = response.headers ∧ result.body = response.body := by
  unfold answerTurn at h
  dsimp only at h
  split at h
  · unfold Except.map at h
    split at h
    · cases h
    · cases h
      exact ⟨rfl, rfl⟩
  · split at h
    · cases h
    · rename_i hclass
      have hfinal := classifyResponse_final hclass
      cases h
      rw [hfinal]
      split_ifs
      · exact ⟨rfl, rfl⟩
      · exact ⟨rfl, rfl⟩
    · split at h
      · cases h
      · split at h
        · cases h
        · split at h
          · cases h
          · cases h

end Answers

/-! ### Every hop of every chain -/

/-- A `cors`-tainted hop that went out: what was looked at is what the wire has, but for the fields
written after that. -/
structure CorsHop (x : AgentCrates) (settings : CorsSettings) (worlds : Nat → HopWorld)
    (past : List HopRecord) (record : HopRecord) : Prop where
  method : record.wire.method = record.hop.method
  fields : ∀ name, (∀ field ∈ writtenFields, field.is name = false) →
    record.wire.headers.getAll name = record.hop.headers.getAll name
  gated : record.hop.Gated x.toNetCrates settings
    (originValue x.toNetCrates settings (urlsTo past record.url)) record.wire.url
    (worlds past.length).preflight record.preflight

/-- The answer of the hop; that of a `cors`-tainted hop passed the CORS check. -/
structure HopAnswer (x : NetCrates) (settings : CorsSettings) (worlds : Nat → HopWorld)
    (past : List HopRecord) (record : HopRecord) (answer : WireResponse) : Prop where
  answered : (worlds past.length).answer = .ok answer
  checked : record.hop.responseType = .cors → Cors.corsCheck answer.headers
    (originValue x settings (urlsTo past record.url)) settings.credentials.includes = true

section Chains
variable {x : AgentCrates} {agent : Agent} {dial : Dial} {deadline : Option Instant}
  {worlds : Nat → HopWorld} {past out : List HopRecord} {state state' : SendState}
  {record : HopRecord} {response : Response}

theorem OriginInv.sent (hI : OriginInv dial.cors past state) {answer : Except NetError Response}
    (h : exchange x agent dial state.url state.hop state.crossSiteRedirect deadline
      (worlds state.followed) = .ok (record, answer)) (hcors : record.hop.responseType = .cors) :
    CorsHop x dial.cors worlds past record := by
  obtain ⟨hp, hurl, -, -, -⟩ := exchange_ok h
  unfold exchange at h
  obtain ⟨outbound, houtbound, h⟩ := bind_eq_ok.1 h
  cases h
  obtain ⟨hmethod, hgated⟩ := prepareHop_gated houtbound
  obtain ⟨-, -, -, hheaders, -⟩ := applyTainting_ok hp.tainted
  refine {
    method := hmethod
    fields := fun name hname => by rw [hp.others name hname, hheaders]
    gated := ?_ }
  have hgated := hgated hcors
  rw [hI.serialized hp.tainted, hI.followed] at hgated
  exact hgated

/-- The response that a turn goes by is the answer of its world. -/
theorem OriginInv.answered (hI : OriginInv dial.cors past state)
    (h : exchange x agent dial state.url state.hop state.crossSiteRedirect deadline
      (worlds state.followed) = .ok (record, .ok response))
    (hchecked : record.hop.Checked x.toNetCrates dial response.headers) :
    ∃ answer, HopAnswer x.toNetCrates dial.cors worlds past record answer ∧
      response.headers = answer.headers ∧ response.body = answer.body := by
  obtain ⟨hp, hurl, hanswer, -, -⟩ := exchange_ok h
  rw [hI.followed] at hanswer
  unfold Except.map at hanswer
  split at hanswer
  · cases hanswer
  · rename_i answer hworld
    cases hanswer
    refine ⟨answer, ⟨hworld, fun hcors => ?_⟩, rfl, rfl⟩
    have hcheck := hchecked hcors
    rw [hI.serialized hp.tainted, ← hurl] at hcheck
    exact hcheck

theorem OriginInv.goesOn (hI : OriginInv dial.cors past state)
    (h : hopTurn x agent dial deadline worlds state = ([record], .next state')) :
    ∃ answer, HopAnswer x.toNetCrates dial.cors worlds past record answer := by
  unfold hopTurn at h
  split at h
  · cases h
  · cases h
  · rename_i sent response hsent
    obtain ⟨hout, hturn⟩ := Prod.mk.inj h
    cases hout
    have hchecked := answerTurn_checked hturn fun error herror => by cases herror
    obtain ⟨answer, hanswer, -, -⟩ := hI.answered hsent hchecked
    exact ⟨answer, hanswer⟩

theorem OriginInv.ends (hI : OriginInv dial.cors past state)
    (h : hopTurn x agent dial deadline worlds state = (out, .done (.ok response))) :
    ∃ record answer, out = [record] ∧ HopAnswer x.toNetCrates dial.cors worlds past record answer ∧
      response.headers = answer.headers ∧ response.body = answer.body := by
  obtain ⟨record, reply, rfl, hsent, hturn⟩ := hopTurn_done h
  have hchecked := answerTurn_checked hturn fun error herror => by cases herror
  obtain ⟨answer, hanswer, hheaders, hbody⟩ := hI.answered hsent hchecked
  obtain ⟨hheaders', hbody'⟩ := answerTurn_own hturn
  exact ⟨record, answer, rfl, hanswer, hheaders'.trans hheaders, hbody'.trans hbody⟩

end Chains

section Runs
variable {x : AgentCrates} {agent : Agent} {request : Request} {started : Instant}
  {worlds : Nat → HopWorld} {past : List HopRecord} {record : HopRecord} {start : SendState}

theorem corsHop_of_send {after : List HopRecord}
    (h : (send x agent request started worlds).2 = past ++ record :: after)
    (hcors : record.hop.responseType = .cors) : CorsHop x request.cors worlds past record := by
  refine emitted_of_send (I := OriginInv request.cors)
    (P := fun past record => record.hop.responseType = .cors → CorsHop x request.cors worlds past record)
    (fun _ state => OriginInv.start) (fun past s out s' hI hnext => hI.next hnext) ?_ h hcors
  exact fun past state record answer hI hsent hcors => hI.sent hsent hcors

theorem hopAnswer_of_reached (hstart : request.start x.toNetCrates agent = .ok start)
    {state next : SendState}
    (h : Reached (hopTurn x agent (request.dial agent) (callDeadline agent request started) worlds)
      start past state)
    (hturn : hopTurn x agent (request.dial agent) (callDeadline agent request started) worlds state =
      ([record], .next next)) :
    ∃ answer, HopAnswer x.toNetCrates request.cors worlds past record answer := by
  have hI : OriginInv request.cors past state :=
    of_reached (fun past s out s' hI hnext => hI.next hnext) h (OriginInv.start hstart)
  exact hI.goesOn hturn

theorem hopAnswer_of_send {response : Response}
    (h : (send x agent request started worlds).1 = .ok response) :
    ∃ past record answer, (send x agent request started worlds).2 = past ++ [record] ∧
      HopAnswer x.toNetCrates request.cors worlds past record answer ∧
      response.headers = answer.headers ∧ response.body = answer.body := by
  refine returned_of_send (R := fun records response => ∃ past record answer,
      records = past ++ [record] ∧ HopAnswer x.toNetCrates request.cors worlds past record answer ∧
        response.headers = answer.headers ∧ response.body = answer.body)
    (fun state => OriginInv.start) (fun past s out s' hI hnext => hI.next hnext) ?_ h
  intro past s out response hI hdone
  obtain ⟨record, answer, rfl, hanswer⟩ := hI.ends hdone
  exact ⟨past, record, answer, rfl, hanswer⟩

end Runs

/-- Along every chain, whatever the answers: a `cors`-tainted hop goes out when it is simple or was
granted, and its answer is followed or returned only when it passed the CORS check. -/
theorem cors_of_send (x : AgentCrates) (agent : Agent) (request : Request) (started : Instant)
    (worlds : Nat → HopWorld) :
    (∀ past record after, (send x agent request started worlds).2 = past ++ record :: after →
      record.hop.responseType = .cors → CorsHop x request.cors worlds past record) ∧
    (∀ start past state record next, request.start x.toNetCrates agent = .ok start →
      Reached (hopTurn x agent (request.dial agent) (callDeadline agent request started) worlds)
        start past state →
      hopTurn x agent (request.dial agent) (callDeadline agent request started) worlds state =
        ([record], .next next) →
      ∃ answer, HopAnswer x.toNetCrates request.cors worlds past record answer) ∧
    ∀ response, (send x agent request started worlds).1 = .ok response →
      ∃ past record answer, (send x agent request started worlds).2 = past ++ [record] ∧
        HopAnswer x.toNetCrates request.cors worlds past record answer ∧
        response.headers = answer.headers ∧ response.body = answer.body := by
  refine ⟨?_, ?_, ?_⟩
  · intro past record after h hcors
    exact corsHop_of_send h hcors
  · intro start past state record next hstart hreached hturn
    exact hopAnswer_of_reached hstart hreached hturn
  · intro response h
    exact hopAnswer_of_send h

/-- A `PUT` to another origin, which lets every origin use every method. -/
example : ((send .sample (.sample 5)
    { Request.sample .cors .follow with method := .put, url := .other } 0 fun _ =>
    { HopWorld.sample .default (.sample 200 []) with
      preflight := .ok (204, (WireResponse.sample 204
        [(⟨"access-control-allow-methods".toList, by decide⟩, Bytes.ofText "*".toList)]).headers) }).2.map
    fun record => (record.hop.responseType, record.preflight.isSome)) = [(.cors, true)] := by
  decide +kernel

end TinyBrowser
