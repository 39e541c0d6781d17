import TinyBrowser.Net.Chain

/-!
# What the referrer tells along a chain

The `Referer` of a hop comes from the one of the hop before it: it stays as it is, becomes the
origin-only form, or goes for good (`Narrowed`). `RefererRules` says this of each hop that goes out,
and what its policy lets through to another origin and to a URL that is not trustworthy
(`referer_of_send`).
-/

namespace TinyBrowser
open Lib Lib.EmitLoop

/-! ### Clearing parts of a URL -/

/-- The parts that `strip_url` clears. -/
inductive UrlPart where
  | username
  | password
  | fragment
  | path
  | query
deriving DecidableEq, Repr

namespace NetCrates

def clear (x : NetCrates) (url : Url) : UrlPart → Url
  | .username => x.setUsername url []
  | .password => x.setPassword url none
  | .fragment => x.setFragment url none
  | .path => x.setPath url []
  | .query => x.setQuery url none

/-- What the URL standard says of the setters on HTTP(S) URLs: a part that is cleared is gone, the
scheme and the origin stay, and neither the order nor a second time matters. -/
structure SetterLaws (x : NetCrates) : Prop where
  scheme : ∀ url part, isHttp url = true → (x.clear url part).scheme = url.scheme
  origin : ∀ url part, isHttp url = true → (x.clear url part).origin = url.origin
  idem : ∀ url part, isHttp url = true → x.clear (x.clear url part) part = x.clear url part
  comm : ∀ url part part', isHttp url = true →
    x.clear (x.clear url part) part' = x.clear (x.clear url part') part
  username : ∀ url, isHttp url = true → x.username (x.clear url .username) = []
  password : ∀ url, isHttp url = true → x.password (x.clear url .password) = none
  fragment : ∀ url, isHttp url = true → x.fragment (x.clear url .fragment) = none
  setFragment : ∀ url fragment, isHttp url = true → isHttp (x.setFragment url fragment) = true

def clearAll (x : NetCrates) (url : Url) (parts : List UrlPart) : Url := parts.foldl x.clear url

variable {x : NetCrates} (laws : x.SetterLaws) {url : Url} (hurl : isHttp url = true)

include laws hurl

theorem SetterLaws.isHttp_clear (part : UrlPart) : isHttp (x.clear url part) = true := by
  unfold isHttp
  rwa [laws.scheme url part hurl]

theorem SetterLaws.isHttp_clearAll (parts : List UrlPart) : isHttp (x.clearAll url parts) = true := by
  induction parts generalizing url with
  | nil => exact hurl
  | cons part parts ih => exact ih (laws.isHttp_clear hurl part)

theorem SetterLaws.origin_clearAll (parts : List UrlPart) :
    (x.clearAll url parts).origin = url.origin := by
  induction parts generalizing url with
  | nil => rfl
  | cons part parts ih =>
    exact (ih (laws.isHttp_clear hurl part)).trans (laws.origin url part hurl)

theorem SetterLaws.clear_clearAll (parts : List UrlPart) (part : UrlPart) :
    x.clear (x.clearAll url parts) part = x.clearAll (x.clear url part) parts := by
  induction parts generalizing url with
  | nil => rfl
  | cons first parts ih =>
    show x.clear (x.clearAll (x.clear url first) parts) part =
      x.clearAll (x.clear (x.clear url part) first) parts
    rw [ih (laws.isHttp_clear hurl first), laws.comm url first part hurl]

/-- What is cleared is clear. -/
theorem SetterLaws.clear_clearAll_of_mem {parts : List UrlPart} {part : UrlPart} (h : part ∈ parts) :
    x.clear (x.clearAll url parts) part = x.clearAll url parts := by
  induction parts generalizing url with
  | nil => cases h
  | cons first parts ih =>
    rcases List.mem_cons.1 h with rfl | h
    · show x.clear (x.clearAll (x.clear url part) parts) part = x.clearAll (x.clear url part) parts
      rw [laws.clear_clearAll (laws.isHttp_clear hurl part), laws.idem url part hurl]
    · exact ih (laws.isHttp_clear hurl first) h

theorem SetterLaws.clearAll_of_subset {parts parts' : List UrlPart} (h : parts' ⊆ parts) :
    x.clearAll (x.clearAll url parts) parts' = x.clearAll url parts := by
  induction parts' with
  | nil => rfl
  | cons part parts' ih =>
    obtain ⟨hpart, hparts'⟩ := List.cons_subset.1 h
    show x.clearAll (x.clear (x.clearAll url parts) part) parts' = _
    rw [laws.clear_clearAll_of_mem hurl hpart, ih hparts']

end NetCrates

/-! ### Stripped URLs -/

def strippedParts : Bool → List UrlPart
  | false => [.username, .password, .fragment]
  | true => [.username, .password, .fragment, .path, .query]

theorem stripUrl_eq (x : NetCrates) (url : Url) (originOnly : Bool) :
    stripUrl x url originOnly = x.clearAll url (strippedParts originOnly) := by
  cases originOnly <;> rfl

section Stripped
variable {x : NetCrates} (laws : x.SetterLaws) {url : Url} (hurl : isHttp url = true)

include laws hurl

theorem isHttp_stripUrl (originOnly : Bool) : isHttp (stripUrl x url originOnly) = true := by
  rw [stripUrl_eq]
  exact laws.isHttp_clearAll hurl _

theorem origin_stripUrl (originOnly : Bool) : (stripUrl x url originOnly).origin = url.origin := by
  rw [stripUrl_eq]
  exact laws.origin_clearAll hurl _

theorem stripUrl_stripUrl (originOnly : Bool) :
    stripUrl x (stripUrl x url originOnly) false = stripUrl x url originOnly := by
  rw [stripUrl_eq, stripUrl_eq]
  refine laws.clearAll_of_subset hurl ?_
  cases originOnly <;> decide

theorem stripUrl_stripUrl_true (originOnly : Bool) :
    stripUrl x (stripUrl x url originOnly) true = stripUrl x url true := by
  cases originOnly with
  | false =>
    show x.clearAll (stripUrl x (stripUrl x url false) false) [.path, .query] = _
    rw [stripUrl_stripUrl laws hurl]
    rfl
  | true =>
    rw [stripUrl_eq, stripUrl_eq]
    exact laws.clearAll_of_subset hurl (List.Subset.refl _)

theorem bare_stripUrl (originOnly : Bool) : x.fragment (stripUrl x url originOnly) = none ∧
    x.username (stripUrl x url originOnly) = [] ∧ x.password (stripUrl x url originOnly) = none := by
  have hclear : ∀ part ∈ strippedParts false,
      x.clear (stripUrl x url originOnly) part = stripUrl x url originOnly := by
    intro part hpart
    rw [stripUrl_eq]
    refine laws.clear_clearAll_of_mem hurl ?_
    cases originOnly
    · exact hpart
    · exact List.mem_append_left [.path, .query] hpart
  have hhttp := isHttp_stripUrl laws hurl originOnly
  refine ⟨?_, ?_, ?_⟩
  · rw [← hclear .fragment (by decide)]
    exact laws.fragment _ hhttp
  · rw [← hclear .username (by decide)]
    exact laws.username _ hhttp
  · rw [← hclear .password (by decide)]
    exact laws.password _ hhttp

end Stripped

/-! ### One hop -/

theorem isPotentiallyTrustworthy_of_isHttp (x : Crates) {url : Url} (h : isHttp url = true) :
    isPotentiallyTrustworthy x url = isTrustworthyOrigin url.origin := by
  rw [isHttp, Bool.or_eq_true, decide_eq_true_eq, decide_eq_true_eq] at h
  unfold isPotentiallyTrustworthy
  rcases h with h | h
  · rw [h, if_neg (by decide), if_neg (by decide), if_neg (by decide)]
  · rw [h, if_neg (by decide), if_neg (by decide), if_neg (by decide)]

theorem isHttp_source {referrer : Referrer} {source : Url} (h : referrer.source = some source) :
    isHttp source = true := by
  unfold Referrer.source at h
  exact (Option.filter_eq_some_iff.1 h).2

/-- The policies under which a trustworthy referrer may go to a URL that is not. -/
def ReferrerPolicy.allowsDowngrade (policy : ReferrerPolicy) : Bool :=
  policy = .origin || policy = .originWhenCrossOrigin || policy = .unsafeUrl

/-- The policies under which more than the origin may go to another one. -/
def ReferrerPolicy.allowsPath (policy : ReferrerPolicy) : Bool :=
  policy = .unsafeUrl || policy = .noReferrerWhenDowngrade

/-- `url` is what the policy lets a request to `target` say of `source`. -/
structure Discloses (x : NetCrates) (policy : ReferrerPolicy) (source target url : Url) : Prop where
  stripped : ∃ originOnly, url = stripUrl x source originOnly
  crossOrigin : url.origin ≠ target.origin → stripUrl x url true ≠ url → policy.allowsPath = true
  downgrade : policy.allowsDowngrade = false → isPotentiallyTrustworthy x.toCrates url = true →
    isPotentiallyTrustworthy x.toCrates target = true

section Determined
variable {x : NetCrates} {policy : ReferrerPolicy} {source target url : Url}

theorem Discloses.of_stripUrl (laws : x.SetterLaws) (hsource : isHttp source = true)
    (htarget : isHttp target = true) {originOnly : Bool} (hurl : stripUrl x source originOnly = url)
    (hcross : source.origin = target.origin ∨ originOnly = true ∨ policy.allowsPath = true)
    (htrust : policy.allowsDowngrade = true ∨ (isTrustworthyOrigin source.origin = true →
      isTrustworthyOrigin target.origin = true)) : Discloses x policy source target url := by
  subst hurl
  refine ⟨⟨originOnly, rfl⟩, fun hleft hlonger => ?_, fun hno hsecure => ?_⟩
  · rw [origin_stripUrl laws hsource] at hleft
    rcases hcross with heq | rfl | hpath
    · exact absurd heq hleft
    · exact absurd (stripUrl_stripUrl_true laws hsource true) hlonger
    · exact hpath
  · rw [isPotentiallyTrustworthy_of_isHttp _ (isHttp_stripUrl laws hsource originOnly),
      origin_stripUrl laws hsource] at hsecure
    rw [isPotentiallyTrustworthy_of_isHttp _ htarget]
    rcases htrust with hallowed | htrust
    · rw [hallowed] at hno
      cases hno
    · exact htrust hsecure

theorem determineReferrer_discloses (laws : x.SetterLaws) {referrer : Referrer}
    (htarget : isHttp target = true) (h : determineReferrer x policy referrer target = some url) :
    ∃ source, referrer.source = some source ∧ isHttp source = true ∧
      Discloses x policy source target url := by
  obtain ⟨source, hsource, h⟩ := Option.bind_eq_some_iff.1 h
  have hhttp := isHttp_source hsource
  refine ⟨source, hsource, hhttp, ?_⟩
  have hlong : ∃ originOnly, (if 4096 < (Bytes.ofText (stripUrl x source false).asStr).length then
      stripUrl x source true else stripUrl x source false) = stripUrl x source originOnly := by
    split_ifs
    · exact ⟨true, rfl⟩
    · exact ⟨false, rfl⟩
  obtain ⟨originOnly, hlong⟩ := hlong
  have hsame : source.origin = target.origin → isTrustworthyOrigin source.origin = true →
      isTrustworthyOrigin target.origin = true := fun heq hsecure => heq ▸ hsecure
  have hsafe : ¬ (isTrustworthyOrigin source.origin && !isTrustworthyOrigin target.origin) = true →
      isTrustworthyOrigin source.origin = true → isTrustworthyOrigin target.origin = true :=
    fun hno hsecure => by simpa [hsecure] using hno
  dsimp only at h
  rw [hlong, origin_stripUrl laws hhttp, isPotentiallyTrustworthy_of_isHttp _ htarget,
    isPotentiallyTrustworthy_of_isHttp _ (isHttp_stripUrl laws hhttp originOnly),
    origin_stripUrl laws hhttp] at h
  cases policy with
  | noReferrer => cases h
  | noReferrerWhenDowngrade =>
    dsimp only at h
    split_ifs at h with hdowngrade
    exact .of_stripUrl laws hhttp htarget (Option.some.inj h) (.inr (.inr rfl))
      (.inr (hsafe hdowngrade))
  | sameOrigin =>
    dsimp only at h
    split_ifs at h with heq
    exact .of_stripUrl laws hhttp htarget (Option.some.inj h) (.inl heq) (.inr (hsame heq))
  | origin =>
    exact .of_stripUrl laws hhttp htarget (Option.some.inj h) (.inr (.inl rfl)) (.inl rfl)
  | strictOrigin =>
    dsimp only at h
    split_ifs at h with hdowngrade
    exact .of_stripUrl laws hhttp htarget (Option.some.inj h) (.inr (.inl rfl))
      (.inr (hsafe hdowngrade))
  | originWhenCrossOrigin =>
    replace h := Option.some.inj h
    split_ifs at h with heq
    · exact .of_stripUrl laws hhttp htarget h (.inl heq) (.inl rfl)
    · exact .of_stripUrl laws hhttp htarget h (.inr (.inl rfl)) (.inl rfl)
  | strictOriginWhenCrossOrigin =>
    dsimp only at h
    split_ifs at h with heq hdowngrade
    · exact .of_stripUrl laws hhttp htarget (Option.some.inj h) (.inl heq) (.inr (hsame heq))
    · exact .of_stripUrl laws hhttp htarget (Option.some.inj h) (.inr (.inl rfl))
        (.inr (hsafe hdowngrade))
  | unsafeUrl =>
    exact .of_stripUrl laws hhttp htarget (Option.some.inj h) (.inr (.inr rfl)) (.inl rfl)

end Determined

/-! ### A chain -/

/-- What the next hop starts from. -/
def Referrer.ofDetermined : Option Url → Referrer
  | some sent => .url sent
  | none => .noReferrer

/-- The referrer after hops to the URLs, the latest first; on the hop after `k` others the policy
`policies k` is in force. -/
def referrerAfter (x : NetCrates) (policies : Nat → ReferrerPolicy) (referrer : Referrer) :
    List Url → Referrer
  | [] => referrer
  | url :: earlier => .ofDetermined (determineReferrer x (policies earlier.length)
      (referrerAfter x policies referrer earlier) url)

/-- The `Referer` of the hop to `url` after the earlier ones. -/
def refererOf (x : NetCrates) (policies : Nat → ReferrerPolicy) (referrer : Referrer)
    (earlier : List Url) (url : Url) : Option Url :=
  determineReferrer x (policies earlier.length) (referrerAfter x policies referrer earlier) url

/-- The second referrer is absent, the first one, or the origin-only form of the first one. -/
inductive Narrowed (x : NetCrates) : Option Url → Option Url → Prop where
  | gone (referrer : Option Url) : Narrowed x referrer none
  | kept (referrer : Option Url) : Narrowed x referrer referrer
  | originOnly (url : Url) : Narrowed x (some url) (some (stripUrl x url true))

theorem Narrowed.eq_none {x : NetCrates} {later : Option Url} (h : Narrowed x none later) :
    later = none := by
  cases h <;> rfl

/-- An HTTP(S) URL that was stripped. -/
def Stripped (x : NetCrates) (url : Url) : Prop :=
  ∃ source originOnly, isHttp source = true ∧ url = stripUrl x source originOnly

section Chain
variable {x : NetCrates} {policies : Nat → ReferrerPolicy} {policy : ReferrerPolicy}
  {referrer : Referrer} {earlier : List Url} {url target : Url}

theorem Stripped.isHttp (laws : x.SetterLaws) (h : Stripped x url) : isHttp url = true := by
  obtain ⟨source, originOnly, hsource, rfl⟩ := h
  exact isHttp_stripUrl laws hsource originOnly

theorem stripped_of_determineReferrer (laws : x.SetterLaws) (htarget : isHttp target = true)
    (h : determineReferrer x policy referrer target = some url) : Stripped x url := by
  obtain ⟨source, -, hsource, hdiscloses⟩ := determineReferrer_discloses laws htarget h
  obtain ⟨originOnly, rfl⟩ := hdiscloses.stripped
  exact ⟨source, originOnly, hsource, rfl⟩

theorem Narrowed.trans (laws : x.SetterLaws) {first second third : Option Url}
    (hfirst : ∀ url ∈ first, isHttp url = true) (h : Narrowed x first second)
    (h' : Narrowed x second third) : Narrowed x first third := by
  cases h' with
  | gone => exact .gone first
  | kept => exact h
  | originOnly url =>
    cases h with
    | kept => exact .originOnly url
    | originOnly url =>
      rw [stripUrl_stripUrl_true laws (hfirst url rfl)]
      exact .originOnly url

/-- One hop: the referrer of the hop before is a stripped URL, so stripping it again leaves it, or its
origin. -/
theorem narrowed_step (laws : x.SetterLaws) {sent : Option Url} (hsent : ∀ url ∈ sent, Stripped x url)
    (htarget : isHttp target = true) :
    Narrowed x sent (determineReferrer x policy (.ofDetermined sent) target) := by
  cases hnext : determineReferrer x policy (.ofDetermined sent) target with
  | none => exact .gone sent
  | some url =>
    obtain ⟨source, hsource, -, hdiscloses⟩ := determineReferrer_discloses laws htarget hnext
    obtain ⟨originOnly, rfl⟩ := hdiscloses.stripped
    cases sent with
    | none => cases hsource
    | some before =>
      obtain rfl : before = source := by
        unfold Referrer.ofDetermined Referrer.source at hsource
        exact Option.some.inj (Option.filter_eq_some_iff.1 hsource).1
      obtain ⟨first, ofFirst, hfirst, rfl⟩ := hsent before rfl
      cases originOnly with
      | false =>
        rw [stripUrl_stripUrl laws hfirst]
        exact .kept _
      | true => exact .originOnly _

/-- The whole chain: what a later hop says is narrowed from what any earlier one said. -/
theorem narrowed_chain (laws : x.SetterLaws) (later : List Url) (hurl : isHttp url = true)
    (hlater : ∀ url ∈ later, isHttp url = true) (htarget : isHttp target = true) :
    Narrowed x (refererOf x policies referrer earlier url)
      (refererOf x policies referrer (later ++ url :: earlier) target) := by
  induction later generalizing target with
  | nil => exact narrowed_step laws (fun _ => stripped_of_determineReferrer laws hurl) htarget
  | cons last later ih =>
    obtain ⟨hlast, hlater⟩ := List.forall_mem_cons.1 hlater
    have hbefore := ih hlater hlast
    refine hbefore.trans laws (fun _ hsent => ?_) (narrowed_step laws (fun _ => ?_) htarget)
    · exact (stripped_of_determineReferrer laws hurl hsent).isHttp laws
    · exact stripped_of_determineReferrer laws hlast

end Chain

/-! ### What goes out -/

/-- The policy that an answer sets for the hops after it. -/
def answerPolicy : Except NetError WireResponse → Option ReferrerPolicy
  | .ok answer => ReferrerPolicy.fromHeader
      ((answer.headers.getAll "referrer-policy".toList).filterMap Bytes.toText?)
  | .error _ => none

/-- The policy in force on a hop: the request's, until an answer names another one. -/
def Request.policyAt (request : Request) (worlds : Nat → HopWorld) : Nat → ReferrerPolicy
  | 0 => request.referrerPolicy
  | k + 1 => (answerPolicy (worlds k).answer).getD (request.policyAt worlds k)

/-- The `Referer` URL of the hop to `url` after those of `past`. -/
def Request.referer (x : NetCrates) (request : Request) (worlds : Nat → HopWorld)
    (past : List HopRecord) (url : Url) : Option Url :=
  refererOf x (request.policyAt worlds) request.referrer (past.map HopRecord.url).reverse url

def refererField (referer : Option Url) : List Bytes :=
  (referer.map fun url => Bytes.ofText url.asStr).toList

/-- What holds of the `Referer` of each hop that goes out. -/
structure RefererRules (x : AgentCrates) (request : Request) (worlds : Nat → HopWorld)
    (past : List HopRecord) (record : HopRecord) : Prop where
  field : record.wire.headers.getAll "referer".toList =
    refererField (request.referer x.toNetCrates worlds past record.url)
  narrowed : ∀ before earlier between, past = before ++ earlier :: between →
    Narrowed x.toNetCrates (request.referer x.toNetCrates worlds before earlier.url)
      (request.referer x.toNetCrates worlds past record.url)
  absent : ∀ before earlier between, past = before ++ earlier :: between →
    request.referer x.toNetCrates worlds before earlier.url = none →
      request.referer x.toNetCrates worlds past record.url = none
  bare : ∀ url ∈ request.referer x.toNetCrates worlds past record.url,
    x.fragment url = none ∧ x.username url = [] ∧ x.password url = none
  crossOrigin : ∀ url ∈ request.referer x.toNetCrates worlds past record.url,
    url.origin ≠ record.url.origin → stripUrl x.toNetCrates url true ≠ url →
      (request.policyAt worlds past.length).allowsPath = true
  downgrade : ∀ url ∈ request.referer x.toNetCrates worlds past record.url,
    (request.policyAt worlds past.length).allowsDowngrade = false →
      isPotentiallyTrustworthy x.toCrates url = true →
        isPotentiallyTrustworthy x.toCrates record.url = true

/-- What holds before each turn. -/
structure RefererInv (x : NetCrates) (request : Request) (worlds : Nat → HopWorld)
    (past : List HopRecord) (state : SendState) : Prop where
  followed : state.followed = past.length
  http : ∀ url ∈ urlsTo past state.url, isHttp url = true
  policy : state.referrerPolicy = request.policyAt worlds past.length
  determined : state.determined = request.referer x worlds past state.url
  field : state.hop.headers.getAll "referer".toList = refererField state.determined

theorem getAll_writeReferer_self {x : NetCrates} {headers headers' : HeaderMap} {referrer : Option Url}
    (h : writeReferer x headers referrer = some headers') :
    headers'.getAll "referer".toList = refererField referrer := by
  unfold writeReferer at h
  split at h
  · obtain ⟨value, hvalue, rfl⟩ := Option.map_eq_some_iff.1 h
    unfold headerFromStr at hvalue
    split_ifs at hvalue
    rw [← Option.some.inj hvalue]
    exact HeaderMap.getAll_set headers .referer _
  · rw [← Option.some.inj h]
    exact HeaderMap.getAll_remove headers _

section Turns
variable {x : AgentCrates} {agent : Agent} {request : Request} {dial : Dial}
  {deadline : Option Instant} {worlds : Nat → HopWorld} {past : List HopRecord}
  {state state' : SendState} {record : HopRecord}

theorem RefererInv.start {x : NetCrates} {agent : Agent} {request : Request} {worlds : Nat → HopWorld}
    {state : SendState} (hhttp : isHttp request.url = true)
    (h : request.start x agent = .ok state) : RefererInv x request worlds [] state := by
  unfold Request.start at h
  obtain ⟨headers, hheaders, h⟩ := bind_eq_ok.1 h
  have hreferer := orReject_eq_ok.1 hheaders
  cases h
  refine ⟨rfl, ?_, rfl, rfl, getAll_writeReferer_self hreferer⟩
  exact fun url hurl => List.mem_singleton.1 hurl ▸ hhttp

theorem isHttp_of_resolveLocation {x : NetCrates} (laws : x.SetterLaws) {current next : Url}
    {location : Bytes} (h : resolveLocation x current location = .ok next) : isHttp next = true := by
  unfold resolveLocation at h
  split at h
  · cases h
  · rename_i joined _
    split_ifs at h with hhttp
    · cases h
      exact laws.setFragment joined _ (by simpa using hhttp)
    · cases h
      simpa using hhttp

theorem redirectPolicy_of_exchange {url : Url} {hop : Hop} {crossSiteRedirect : Bool}
    {world : HopWorld} {response : Response}
    (h : exchange x agent dial url hop crossSiteRedirect deadline world =
      .ok (record, .ok response)) : redirectPolicy response = answerPolicy world.answer := by
  obtain ⟨-, -, hanswer, -, -⟩ := exchange_ok h
  cases hworld : world.answer with
  | error error =>
    rw [hworld] at hanswer
    cases hanswer
  | ok answer =>
    rw [hworld] at hanswer
    cases hanswer
    rfl

theorem referer_concat (x : NetCrates) (request : Request) (worlds : Nat → HopWorld)
    (past : List HopRecord) (record : HopRecord) (next : Url) :
    request.referer x worlds (past ++ [record]) next =
      determineReferrer x (request.policyAt worlds (past.length + 1))
        (.ofDetermined (request.referer x worlds past record.url)) next := by
  unfold Request.referer refererOf
  rw [List.map_append, List.map_singleton, List.reverse_append, List.length_append]
  simp only [List.reverse_singleton, List.singleton_append, referrerAfter, List.length_reverse,
    List.length_map, List.length_singleton, Nat.add_comm 1]

theorem RefererInv.next (laws : x.SetterLaws) (hI : RefererInv x.toNetCrates request worlds past state)
    {out : List HopRecord} (h : hopTurn x agent dial deadline worlds state = (out, .next state')) :
    RefererInv x.toNetCrates request worlds (past ++ out) state' := by
  obtain ⟨record, response, location, next, rfl, -, hsent, hlocation, hredirect⟩ := hopTurn_redirect h
  have hurl := (exchange_ok hsent).2.1
  have hpolicy := redirectPolicy_of_exchange hsent
  unfold SendState.redirect at hredirect
  obtain ⟨headers, hheaders, hredirect⟩ := bind_eq_ok.1 hredirect
  have hreferer := orReject_eq_ok.1 hheaders
  cases hredirect
  have hnew : (redirectPolicy response).getD state.referrerPolicy =
      request.policyAt worlds (past.length + 1) := by
    rw [hpolicy, hI.policy, hI.followed]
    rfl
  refine ⟨?_, ?_, ?_, ?_, getAll_writeReferer_self hreferer⟩
  · rw [List.length_append, hI.followed]
    rfl
  · intro url hmem
    unfold urlsTo at hmem
    rcases List.mem_append.1 hmem with hmem | hmem
    · refine hI.http url ?_
      rwa [List.map_append, List.map_singleton, hurl] at hmem
    · rw [List.mem_singleton.1 hmem]
      exact isHttp_of_resolveLocation laws hlocation
  · rw [List.length_append]
    exact hnew
  · dsimp only
    rw [referer_concat, hurl, ← hI.determined, ← hnew]
    cases state.determined <;> rfl

theorem RefererInv.sent (laws : x.SetterLaws) (hI : RefererInv x.toNetCrates request worlds past state)
    {answer : Except NetError Response}
    (h : exchange x agent dial state.url state.hop state.crossSiteRedirect deadline
      (worlds state.followed) = .ok (record, answer)) :
    RefererRules x request worlds past record := by
  obtain ⟨hp, hurl, -, -, -⟩ := exchange_ok h
  have hhttp : isHttp record.url = true :=
    hurl ▸ hI.http state.url (List.mem_append_right _ (List.mem_singleton_self _))
  have hdiscloses : ∀ url ∈ request.referer x.toNetCrates worlds past record.url, ∃ source,
      isHttp source = true ∧ Discloses x.toNetCrates (request.policyAt worlds past.length) source
        record.url url := by
    intro url hmem
    obtain ⟨source, -, hsource, h⟩ := determineReferrer_discloses laws hhttp hmem
    rw [List.length_reverse, List.length_map] at h
    exact ⟨source, hsource, h⟩
  have hnarrowed : ∀ before earlier between, past = before ++ earlier :: between →
      Narrowed x.toNetCrates (request.referer x.toNetCrates worlds before earlier.url)
        (request.referer x.toNetCrates worlds past record.url) := by
    rintro before earlier between rfl
    have hparts : ((before ++ earlier :: between).map HopRecord.url).reverse =
        (between.map HopRecord.url).reverse ++ earlier.url :: (before.map HopRecord.url).reverse := by
      simp
    have hpast : ∀ url ∈ (before ++ earlier :: between).map HopRecord.url, isHttp url = true :=
      fun url hmem => hI.http url (List.mem_append_left _ hmem)
    unfold Request.referer
    rw [hparts]
    refine narrowed_chain laws _ (hpast _ (by simp)) (fun url hmem => hpast url ?_) hhttp
    rw [List.map_append, List.map_cons]
    exact List.mem_append_right _ (List.mem_cons_of_mem _ (List.mem_reverse.1 hmem))
  refine ⟨?_, hnarrowed, fun before earlier between hpast hnone => ?_, ?_, ?_, ?_⟩
  · rw [hp.others _ (by decide), hI.field, hI.determined, hurl]
  · have hlater := hnarrowed before earlier between hpast
    rw [hnone] at hlater
    exact hlater.eq_none
  · intro url hmem
    obtain ⟨source, hsource, h⟩ := hdiscloses url hmem
    obtain ⟨originOnly, rfl⟩ := h.stripped
    exact bare_stripUrl laws hsource originOnly
  · intro url hmem
    obtain ⟨source, -, h⟩ := hdiscloses url hmem
    exact h.crossOrigin
  · intro url hmem
    obtain ⟨source, -, h⟩ := hdiscloses url hmem
    exact h.downgrade

end Turns

/-- Along every chain, whatever the answers and their policies, the referrer tells less and less. -/
theorem referer_of_send (x : AgentCrates) (laws : x.SetterLaws) (agent : Agent) (request : Request)
    (started : Instant) (worlds : Nat → HopWorld) {past after : List HopRecord} {record : HopRecord}
    (h : (send x agent request started worlds).2 = past ++ record :: after) :
    RefererRules x request worlds past record :=
  emitted_of_send (fun hhttp _ => RefererInv.start hhttp) (fun _ _ _ _ hI hnext => hI.next laws hnext)
    (fun _ _ _ _ hI hsent => hI.sent laws hsent) h

/-- `https://example.com/page`. -/
def Url.samplePage : Url :=
  { Url.sample with path := "/page".toList, asStr := "https://example.com/page".toList }

/-- The crates of `AgentCrates.sample`, with a page that has a path. -/
def AgentCrates.paged : AgentCrates :=
  { AgentCrates.sample with setPath := fun url _ => if url = .samplePage then .sample else url }

theorem AgentCrates.paged_laws : AgentCrates.paged.SetterLaws := by
  have hpath : ∀ url, (if url = Url.samplePage then Url.sample else url).scheme = url.scheme ∧
      (if url = Url.samplePage then Url.sample else url).origin = url.origin := by
    intro url
    split_ifs with hpage
    · rw [hpage]
      exact ⟨rfl, rfl⟩
    · exact ⟨rfl, rfl⟩
  refine ⟨fun url part _ => ?_, fun url part _ => ?_, fun url part _ => ?_, fun url part part' _ => ?_,
    fun _ _ => rfl, fun _ _ => rfl, fun _ _ => rfl, fun _ _ h => h⟩
  · cases part with
    | path => exact (hpath url).1
    | _ => rfl
  · cases part with
    | path => exact (hpath url).2
    | _ => rfl
  · cases part with
    | path =>
      by_cases hpage : url = Url.samplePage
      · rw [hpage]
        decide
      · have hkeep : AgentCrates.paged.clear url .path = url := if_neg hpage
        rw [hkeep, hkeep]
    | _ => rfl
  · cases part <;> cases part' <;> rfl

/-- A fetch from a page to its own origin, sent on to another one and back. -/
theorem referer_of_send_paged : ∃ first second third,
    (send .paged (.sample 5) { Request.sample .cors .follow with referrer := .url .samplePage } 0
      (HopWorld.return .default (.sample 200 []))).2 = [first, second, third] ∧
    second.wire.headers.getAll "referer".toList = [Bytes.ofText "https://example.com/".toList] ∧
    RefererRules .paged { Request.sample .cors .follow with referrer := .url .samplePage }
      (HopWorld.return .default (.sample 200 [])) [first] second := by
  have hfields : (send .paged (.sample 5) { Request.sample .cors .follow with referrer := .url .samplePage } 0
      (HopWorld.return .default (.sample 200 []))).2.map
        (fun record => record.wire.headers.getAll "referer".toList) =
      [[Bytes.ofText "https://example.com/page".toList], [Bytes.ofText "https://example.com/".toList],
        [Bytes.ofText "https://example.com/".toList]] := by decide +kernel
  obtain ⟨first, second, third, hrecords⟩ := List.length_eq_three.1
    ((List.length_map _).symm.trans (congrArg List.length hfields))
  rw [hrecords] at hfields
  exact ⟨first, second, third, hrecords, (List.cons.inj (List.cons.inj hfields).2).1,
    referer_of_send .paged AgentCrates.paged_laws _ _ _ _
      (show _ = [first] ++ second :: [third] from hrecords)⟩

end TinyBrowser
