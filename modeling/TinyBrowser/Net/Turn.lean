import TinyBrowser.Net.Sent

/-!
# Turns of the redirect loop

What a turn of `Agent::send` does, case by case: the hop it sends, the redirect it goes on with
(`Redirected`), the response it ends with.
-/

namespace TinyBrowser
open Lib Lib.EmitLoop

/-! ### Turns -/

section Turns
variable {x : AgentCrates} {agent : Agent} {dial : Dial} {deadline : Option Instant}
  {worlds : Nat → HopWorld} {state state' : SendState} {out : List HopRecord}

theorem hopTurn_sent {before after : List HopRecord} {record : HopRecord}
    (h : (hopTurn x agent dial deadline worlds state).1 = before ++ record :: after) :
    before = [] ∧ ∃ answer, exchange x agent dial state.url state.hop state.crossSiteRedirect
      deadline (worlds state.followed) = .ok (record, answer) := by
  have hone : ∀ {sent : HopRecord}, [sent] = before ++ record :: after →
      before = [] ∧ sent = record := by
    intro sent hsent
    cases before with
    | nil => exact ⟨rfl, (List.cons.inj hsent).1⟩
    | cons first before =>
      have hlen := congrArg List.length hsent
      simp only [List.length_cons, List.length_nil, List.length_append] at hlen
      omega
  unfold hopTurn at h
  split at h
  · simp at h
  · rename_i sent error hsent
    obtain ⟨hbefore, rfl⟩ := hone h
    exact ⟨hbefore, _, hsent⟩
  · rename_i sent response hsent
    obtain ⟨hbefore, rfl⟩ := hone h
    exact ⟨hbefore, _, hsent⟩

theorem classifyResponse_redirect {x : NetCrates} {response : Response} {current next : Url}
    {hop : Hop} (h : classifyResponse x response current dial hop = .ok (.redirect next)) :
    ∃ location, resolveLocation x current location = .ok next := by
  unfold classifyResponse at h
  obtain ⟨-, -, h⟩ := bind_eq_ok.1 h
  split at h
  · cases h
  · split at h
    · cases h
    · rename_i location hlocation
      unfold followRedirect at h
      obtain ⟨target, htarget, h⟩ := bind_eq_ok.1 h
      split at h
      · cases h
      · cases h
        exact ⟨location, htarget⟩

theorem classifyResponse_final {x : NetCrates} {response final : Response} {current : Url}
    {hop : Hop} (h : classifyResponse x response current dial hop = .ok (.final final)) :
    final = if dial.cors.redirect = .manual ∧ isRedirectStatus response.status = true then
      { response with filtering := .opaqueRedirect } else response := by
  unfold classifyResponse at h
  obtain ⟨-, -, h⟩ := bind_eq_ok.1 h
  simp only [Bool.and_eq_true, decide_eq_true_eq] at h
  split at h
  · rename_i hstop
    rw [if_pos hstop]
    cases h
    rfl
  · rename_i hstop
    rw [if_neg hstop]
    split at h
    · cases h
      rfl
    · unfold followRedirect at h
      obtain ⟨target, -, h⟩ := bind_eq_ok.1 h
      split at h
      · cases h
      · cases h

theorem answerTurn_redirect {x : NetCrates} {hop : Hop} {response : Response}
    (h : answerTurn x agent dial state hop response = .next state') :
    ∃ location next, state.followed ≠ agent.maxRedirects ∧
      resolveLocation x state.url location = .ok next ∧
      state.redirect x dial hop response.status (redirectPolicy response) next = .ok state' := by
  unfold answerTurn at h
  dsimp only at h
  split at h
  · cases h
  · split at h
    · cases h
    · cases h
    · rename_i next hclass
      obtain ⟨location, hlocation⟩ := classifyResponse_redirect hclass
      split at h
      · cases h
      · rename_i hlimit
        split at h
        · cases h
        · split at h
          · cases h
          · rename_i redirected hredirect
            cases h
            exact ⟨location, next, hlimit, hlocation, hredirect⟩

/-- Whether a response with this status is handed over as an opaque redirect. -/
def StopsAtRedirect (agent : Agent) (cors : CorsSettings) (status : Nat) : Prop :=
  agent.maxRedirects ≠ 0 ∧ cors.redirect = .manual ∧ isRedirectStatus status = true

/-- A response that ends the loop is the hop's own, but for its filtering when it stops at a
redirect. -/
theorem answerTurn_done {x : NetCrates} {hop : Hop} {response result : Response}
    (h : answerTurn x agent dial state hop response = .done (.ok result)) :
    result.finalUrl = response.finalUrl ∧
      (StopsAtRedirect agent dial.cors result.status → result.filtering = .opaqueRedirect) ∧
      (¬ StopsAtRedirect agent dial.cors result.status →
        result.filtering = response.filtering) := by
  unfold answerTurn at h
  dsimp only at h
  split at h
  · rename_i hzero
    unfold Except.map at h
    split at h
    · cases h
    · cases h
      exact ⟨rfl, fun hstops => absurd hzero hstops.1, fun _ => rfl⟩
  · rename_i hzero
    split at h
    · cases h
    · rename_i final hclass
      have hfinal := classifyResponse_final hclass
      cases h
      dsimp only at hfinal
      rw [hfinal]
      by_cases hstop : dial.cors.redirect = .manual ∧ isRedirectStatus response.status = true
      · rw [if_pos hstop]
        exact ⟨rfl, fun _ => rfl, fun hgoes => absurd ⟨hzero, hstop⟩ hgoes⟩
      · rw [if_neg hstop]
        exact ⟨rfl, fun hstops => absurd hstops.2 hstop, fun _ => rfl⟩
    · split at h
      · cases h
      · split at h
        · cases h
        · split at h
          · cases h
          · cases h

theorem hopTurn_redirect (h : hopTurn x agent dial deadline worlds state = (out, .next state')) :
    ∃ record response location next,
      out = [record] ∧ state.followed ≠ agent.maxRedirects ∧
      exchange x agent dial state.url state.hop state.crossSiteRedirect deadline
        (worlds state.followed) = .ok (record, .ok response) ∧
      resolveLocation x.toNetCrates state.url location = .ok next ∧
      state.redirect x.toNetCrates dial record.hop response.status (redirectPolicy response) next =
        .ok state' := by
  unfold hopTurn at h
  split at h
  · cases h
  · cases h
  · rename_i record response hsent
    obtain ⟨rfl, hturn⟩ := Prod.mk.inj h
    obtain ⟨location, next, hlimit, hlocation, hredirect⟩ := answerTurn_redirect hturn
    exact ⟨record, response, location, next, rfl, hlimit, hsent, hlocation, hredirect⟩

theorem hopTurn_next (h : hopTurn x agent dial deadline worlds state = (out, .next state')) :
    ∃ record answer status location policy next,
      out = [record] ∧ state.followed ≠ agent.maxRedirects ∧
      exchange x agent dial state.url state.hop state.crossSiteRedirect deadline
        (worlds state.followed) = .ok (record, answer) ∧
      resolveLocation x.toNetCrates state.url location = .ok next ∧
      state.redirect x.toNetCrates dial record.hop status policy next = .ok state' := by
  obtain ⟨record, response, location, next, hout, hlimit, hsent, hlocation, hredirect⟩ :=
    hopTurn_redirect h
  exact ⟨record, _, _, location, _, next, hout, hlimit, hsent, hlocation, hredirect⟩

theorem hopTurn_done {response : Response}
    (h : hopTurn x agent dial deadline worlds state = (out, .done (.ok response))) :
    ∃ record answer, out = [record] ∧
      exchange x agent dial state.url state.hop state.crossSiteRedirect deadline
        (worlds state.followed) = .ok (record, .ok answer) ∧
      answerTurn x.toNetCrates agent dial state record.hop answer = .done (.ok response) := by
  unfold hopTurn at h
  split at h
  · cases h
  · cases h
  · rename_i record answer hsent
    obtain ⟨rfl, hturn⟩ := Prod.mk.inj h
    exact ⟨record, answer, rfl, hsent, hturn⟩

end Turns

/-! ### What a redirect keeps and drops -/

theorem getAll_removeAll_nil {other : Text} (names : List Text) {map : HeaderMap}
    (h : map.getAll other = []) : (map.removeAll names).getAll other = [] := by
  unfold HeaderMap.removeAll
  induction names generalizing map with
  | nil => exact h
  | cons name names ih => exact ih (HeaderMap.getAll_remove_nil name h)

variable {name : Text}

theorem getAll_removeAll {names : List Text} (hname : name ∈ names)
    (map : HeaderMap) : (map.removeAll names).getAll name = [] := by
  unfold HeaderMap.removeAll
  induction names generalizing map with
  | nil => cases hname
  | cons first names ih =>
    rcases List.mem_cons.1 hname with rfl | hname
    · exact getAll_removeAll_nil names (HeaderMap.getAll_remove map name)
    · exact ih hname (map.remove first)

theorem getAll_dropUntrusted_nil {x : Crates} {next : Url} {headers : HeaderMap}
    (h : headers.getAll name = []) : (dropUntrusted x next headers).getAll name = [] := by
  unfold dropUntrusted
  split_ifs
  · exact h
  · exact HeaderMap.getAll_remove_nil _ h

theorem getAll_applyRedirectPolicy_nil {x : Crates} {status : Nat} {current next : Url} {hop : Hop}
    (h : hop.headers.getAll name = []) :
    (applyRedirectPolicy x status current next hop).headers.getAll name = [] := by
  have hget : (hop.toGet status).headers.getAll name = [] := by
    unfold Hop.toGet
    split_ifs
    · exact getAll_removeAll_nil bodyFields h
    · exact h
  refine getAll_dropUntrusted_nil ?_
  unfold dropOriginFields
  split_ifs
  · exact getAll_removeAll_nil originFields hget
  · exact hget

theorem getAll_applyRedirectPolicy_cross {x : Crates} {status : Nat} {current next : Url}
    {hop : Hop} (hname : name ∈ originFields) (hcross : current.origin ≠ next.origin) :
    (applyRedirectPolicy x status current next hop).headers.getAll name = [] := by
  refine getAll_dropUntrusted_nil ?_
  unfold dropOriginFields
  rw [if_pos hcross]
  exact getAll_removeAll hname _

theorem getAll_writeReferer {x : NetCrates} {headers headers' : HeaderMap} {referrer : Option Url}
    (h : writeReferer x headers referrer = some headers')
    (hname : HeaderName.referer.is name = false) : headers'.getAll name = headers.getAll name := by
  unfold writeReferer at h
  split at h
  · obtain ⟨value, -, rfl⟩ := Option.map_eq_some_iff.1 h
    exact HeaderMap.getAll_set_of_not headers value hname
  · rw [← Option.some.inj h]
    exact HeaderMap.getAll_remove_of_not headers hname

/-- The state for the next hop, as far as the chain depends on it. -/
structure Redirected (x : NetCrates) (dial : Dial) (state : SendState) (hop : Hop) (next : Url)
    (state' : SendState) : Prop where
  url : state'.url = next
  followed : state'.followed = state.followed + 1
  responseType : state'.hop.responseType = hop.responseType
  fetchSite : state'.fetchSite =
    FetchSite.widen x.toCrates state.fetchSite dial.initiator next
  siteField : state'.hop.headers.getAll "sec-fetch-site".toList =
    [Bytes.ofText (fetchSiteToken state'.fetchSite)]
  originFields : ∀ name ∈ originFields,
    hop.headers.getAll name = [] ∨ state.url.origin ≠ next.origin →
      state'.hop.headers.getAll name = []

theorem redirect_ok {x : NetCrates} {dial : Dial} {state state' : SendState} {hop : Hop}
    {status : Nat} {policy : Option ReferrerPolicy} {next : Url}
    (h : state.redirect x dial hop status policy next = .ok state') :
    Redirected x dial state hop next state' := by
  unfold SendState.redirect at h
  obtain ⟨headers, hheaders, h⟩ := bind_eq_ok.1 h
  have hreferer := orReject_eq_ok.1 hheaders
  cases h
  refine ⟨rfl, rfl, ?_, rfl, ?_, ?_⟩
  · dsimp only [applyRedirectPolicy]
    unfold Hop.toGet
    split_ifs <;> rfl
  · dsimp only
    rw [getAll_writeReferer hreferer (by decide)]
    exact HeaderMap.getAll_set _ .secFetchSite _
  · intro name hname hdrop
    have hsite : ∀ name ∈ originFields, HeaderName.referer.is name = false ∧
        HeaderName.secFetchSite.is name = false := by decide
    dsimp only
    rw [getAll_writeReferer hreferer (hsite name hname).1]
    unfold writeFetchSite
    rw [HeaderMap.getAll_set_of_not _ _ (hsite name hname).2]
    rcases hdrop with hnone | hcross
    · exact getAll_applyRedirectPolicy_nil hnone
    · exact getAll_applyRedirectPolicy_cross hname hcross

section Sends
variable {x : AgentCrates} {agent : Agent} {request : Request} {started : Instant}
  {worlds : Nat → HopWorld} {I : List HopRecord → SendState → Prop}

/-- What a hop is sent with, when every turn that goes on keeps the invariant. -/
theorem emitted_of_send {P : List HopRecord → HopRecord → Prop}
    (hstart : isHttp request.url = true → ∀ state, request.start x.toNetCrates agent = .ok state →
      I [] state)
    (hnext : ∀ past state out state', I past state →
      hopTurn x agent (request.dial agent) (callDeadline agent request started) worlds state =
        (out, .next state') → I (past ++ out) state')
    (hsent : ∀ past state record answer, I past state →
      exchange x agent (request.dial agent) state.url state.hop state.crossSiteRedirect
        (callDeadline agent request started) (worlds state.followed) = .ok (record, answer) →
      P past record)
    {past after : List HopRecord} {record : HopRecord}
    (h : (send x agent request started worlds).2 = past ++ record :: after) : P past record := by
  unfold send at h
  split at h
  · simp at h
  · rename_i hhttp
    rw [Bool.not_eq_true', Bool.not_eq_false] at hhttp
    split at h
    · simp at h
    · rename_i state hstate
      refine of_emitted hnext ?_ agent.maxRedirects (hstart hhttp state hstate) h
      intro past s before item after hI hemit
      obtain ⟨rfl, answer, hitem⟩ := hopTurn_sent hemit
      rw [List.append_nil]
      exact hsent past s item answer hI hitem

/-- What a chain returns, when every turn that goes on keeps the invariant. -/
theorem returned_of_send {R : List HopRecord → Response → Prop}
    (hstart : ∀ state, request.start x.toNetCrates agent = .ok state → I [] state)
    (hnext : ∀ past state out state', I past state →
      hopTurn x agent (request.dial agent) (callDeadline agent request started) worlds state =
        (out, .next state') → I (past ++ out) state')
    (hdone : ∀ past state out response, I past state →
      hopTurn x agent (request.dial agent) (callDeadline agent request started) worlds state =
        (out, .done (.ok response)) → R (past ++ out) response)
    {response : Response} (h : (send x agent request started worlds).1 = .ok response) :
    R (send x agent request started worlds).2 response := by
  unfold send at h ⊢
  split at h
  · cases h
  · rename_i hhttp
    rw [if_neg hhttp]
    split at h
    · cases h
    · rename_i state hstate
      have hrun : sendFrom x agent (request.dial agent) (callDeadline agent request started) worlds
          agent.maxRedirects state = (.ok response, _) := Prod.ext h rfl
      refine of_run (R := fun past result => ∀ response, result = .ok response → R past response)
        hnext ?_ agent.maxRedirects (hstart state hstate) hrun ?_ response rfl
      · rintro past s out result hI hresult response rfl
        exact hdone past s out response hI hresult
      · intro hstuck
        cases hstuck

end Sends

end TinyBrowser
