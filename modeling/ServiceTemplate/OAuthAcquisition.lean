import ServiceTemplate.OAuthTokens
import Mathlib.Data.Set.Function
import Mathlib.Data.List.Induction

/-! What a caller of the outbound credentials can rely on, over every interleaving of calls, the
refresh driver, the provider and the clock. -/
namespace OAuthAcquisition

open ByteFraming
open FormText
open TransitionSystem
open SharedState
open OAuthTokens

variable {config : Config} {sh sh' sh'' : Shared} {r : Requester} {c : CallId}

/-- The cutoff is the margin before the expiry, or the start of the request where the clock cannot
go that far back. -/
theorem reuse_cutoff_ok {expiresIn : Option UInt64} {started now : ℕ}
    {reuseUntil : Option ℕ}
    (h : reuseCutoff config expiresIn started now = .ok reuseUntil) :
    (expiresIn = none ∧ reuseUntil = none) ∨ ∃ lifetime cutoff, expiresIn = some lifetime ∧
      reuseUntil = some cutoff ∧ (cutoff = started ∨
        cutoff + reuseMargin ≤ started + fromSecs lifetime.toNat) := by
  cases expiresIn with
  | none =>
    simp only [reuseCutoff, Except.ok.injEq] at h
    exact .inl ⟨rfl, h.symm⟩
  | some lifetime =>
    simp only [reuseCutoff] at h
    split at h
    · cases h
    · next expiry hexpiry =>
      by_cases hpast : expiry ≤ now
      · simp [hpast] at h
      · rw [if_neg hpast, Except.ok.injEq] at h
        refine .inr ⟨lifetime, _, rfl, h.symm, ?_⟩
        have hsum : started + fromSecs lifetime.toNat = expiry := by
          simp only [checkedAdd] at hexpiry
          split at hexpiry
          · exact Option.some.inj hexpiry
          · cases hexpiry
        rw [hsum]
        generalize reuseMargin = margin
        by_cases hmargin : margin ≤ expiry
        · rw [checkedSub, if_pos hmargin, Option.getD_some]
          exact .inr (Nat.sub_add_cancel hmargin).le
        · rw [checkedSub, if_neg hmargin]
          exact .inl rfl

theorem into_token_ok {id : ℕ} {response : TokenResponse} {started now later : ℕ}
    {required : Option String} {sample : Option UInt16} {token : Token}
    (h : intoToken config id response started required now later sample = .ok token) :
    token.id = id ∧ token.acquired = started ∧
      reuseCutoff config response.expiresIn started now = .ok token.reuseUntil := by
  simp only [intoToken] at h
  split at h
  · cases h
  split at h
  · cases h
  split at h
  · cases h
  split at h
  · cases h
  split at h
  · cases h
  next reuseUntil hcutoff =>
  cases h
  exact ⟨rfl, rfl, hcutoff⟩

structure Valid (config : Config) (subjects : List String) (now : ℕ) (issue : Issue) :
    Prop where
  request : ∃ assertion, issue.request = config.body assertion issue.grant
  past : issue.started ≤ now
  acquired : issue.token.acquired = issue.started
  cutoff : ∃ read, reuseCutoff config issue.response.expiresIn issue.started read =
    .ok issue.token.reuseUntil
  subject : ∀ subject, issue.grant = .tokenExchange subject → subject ∈ subjects

def Issued (L : Ledger) (p : Issue → Prop) (token : Token) : Prop :=
  ∃ issue ∈ L.issued, issue.token = token ∧ p issue

def IssuedService (L : Ledger) : Token → Prop := Issued L fun issue => issue.grant = .clientCredentials

def IssuedFor (config : Config) (L : Ledger) (key : Key) : Token → Prop :=
  Issued L fun issue => ∃ subject, issue.grant = .tokenExchange subject ∧
    config.subjectKey subject = key

def IssuedTo (L : Ledger) (r : Requester) (grant : Grant) : Token → Prop :=
  Issued L fun issue => issue.requester = r ∧ issue.grant = grant

/-- The token may be reused at `now`, which leaves the margin before its expiry. -/
def Reusable (L : Ledger) (now : ℕ) (token : Token) : Prop :=
  ∃ cutoff, token.reuseUntil = some cutoff ∧ now < cutoff ∧
    Issued L (fun issue => ∃ lifetime, issue.response.expiresIn = some lifetime ∧
      cutoff + reuseMargin ≤ issue.started + fromSecs lifetime.toNat) token

def BasisSound (L : Ledger) (c : CallId) (began time : ℕ) (token : Token) : Basis → Prop
  | .reused now => began ≤ now ∧ now ≤ time ∧ Reusable L now token
  | .fetched => Issued L (fun issue => issue.requester = .call c) token

def AcquiredSound (config : Config) (L : Ledger) (subject : Option String) (acquired : Acquired) :
    Prop :=
  match subject with
  | none => ∃ token, acquired = .service token ∧ IssuedService L token
  | some subject => ∃ token, acquired = .exchanged (config.subjectKey subject) token ∧
      IssuedFor config L (config.subjectKey subject) token

structure OutcomeSound (config : Config) (L : Ledger) (outcome : Outcome) : Prop where
  subject : ∀ subject, outcome.subject = some subject → subject ∈ L.subjects
  answer : ∀ acquired basis, outcome.result = .ok (acquired, basis) →
    AcquiredSound config L outcome.subject acquired ∧
      BasisSound L outcome.call outcome.began outcome.time acquired.token basis

/-- No service-token request is sent within the window of an earlier remembered failure. -/
def Spaced (earlier later : Mark) : Prop :=
  ∀ failed started, earlier = .failed failed → later = .started started →
    failed + failureWindow ≤ started

def Passed (marks : List Mark) (now : ℕ) : Prop :=
  ∀ time, .failed time ∈ marks → time + failureWindow ≤ now

/-- A failure whose window is open is the one that is remembered. -/
def Remembered (marks : List Mark) (failure : Option CompletedFailure) (now : ℕ) : Prop :=
  ∀ time, .failed time ∈ marks → time + failureWindow ≤ now ∨
    ∃ completed, failure = some completed ∧ time + failureWindow ≤ completed.cutoff

structure Inv (config : Config) (sh : Shared) : Prop where
  issued : ∀ i issue, sh.ledger.issued[i]? = some issue →
    issue.token.id = i ∧ Valid config sh.ledger.subjects sh.now issue
  cached : ∀ token, sh.cached.token = some token → IssuedService sh.ledger token ∧
    ∃ cutoff, token.reuseUntil = some cutoff ∧ token.acquired < cutoff
  exchanged : ∀ key token, sh.exchanged key = some token → IssuedFor config sh.ledger key token
  runs : ∀ (i : RunId) run token, sh.runs[i]? = some run → run.published = some (.token token) →
    IssuedFor config sh.ledger run.key token
  fills : ∀ key (i : RunId), sh.fills key = some i → ∃ run, sh.runs[i]? = some run ∧ run.key = key
  remembered : Remembered sh.ledger.marks sh.cached.failure sh.now
  spaced : sh.ledger.marks.Pairwise Spaced
  outcomes : ∀ outcome ∈ sh.ledger.outcomes, OutcomeSound config sh.ledger outcome

structure Extends (L L' : Ledger) : Prop where
  subjects : ∀ subject ∈ L.subjects, subject ∈ L'.subjects
  issued : ∀ issue ∈ L.issued, issue ∈ L'.issued

/-- What a move of `r` leaves to the other tasks: who holds the refresh lock keeps it and sees no
new failure, and only a free place of the open channel is taken. -/
structure Guarantee (r : Requester) (sh sh' : Shared) : Prop where
  now : sh.now ≤ sh'.now
  ledger : Extends sh.ledger sh'.ledger
  runs : ∀ (i : RunId) run, sh.runs[i]? = some run → ∃ run', sh'.runs[i]? = some run' ∧
    run'.key = run.key
  holder : ∀ other, other ≠ r → sh.refresh = some other → sh'.refresh = some other ∧
    ∀ time, .failed time ∈ sh'.ledger.marks → .failed time ∈ sh.ledger.marks
  channel : r ≠ .driver → sh'.closed = sh.closed ∧
    ((sh'.queue = sh.queue ∧ sh'.cached.refreshPending = sh.cached.refreshPending) ∨
      (sh.closed = false ∧ sh.queue = [] ∧ sh.cached.refreshPending = false ∧
        sh'.queue.length = 1 ∧ sh'.cached.refreshPending = true))

section Growing

variable {L L' : Ledger} {token : Token}

theorem Issued.extend {p : Issue → Prop} (hL : Extends L L') (h : Issued L p token) :
    Issued L' p token := by
  rcases h with ⟨issue, hmem, hissue⟩
  exact ⟨issue, hL.issued issue hmem, hissue⟩

theorem Issued.imp {p q : Issue → Prop} (hpq : ∀ issue, p issue → q issue) (h : Issued L p token) :
    Issued L q token := by
  rcases h with ⟨issue, hmem, htoken, hp⟩
  exact ⟨issue, hmem, htoken, hpq issue hp⟩

theorem Reusable.extend {now : ℕ} (hL : Extends L L') (h : Reusable L now token) :
    Reusable L' now token := by
  rcases h with ⟨cutoff, hcutoff, hnow, hissued⟩
  exact ⟨cutoff, hcutoff, hnow, hissued.extend hL⟩

theorem BasisSound.extend {began time time' : ℕ} {basis : Basis} (hL : Extends L L')
    (htime : time ≤ time') (h : BasisSound L c began time token basis) :
    BasisSound L' c began time' token basis := by
  cases basis with
  | reused now =>
    rcases h with ⟨hbegan, hnow, hreusable⟩
    exact ⟨hbegan, Nat.le_trans hnow htime, hreusable.extend hL⟩
  | fetched => exact Issued.extend hL h

theorem AcquiredSound.extend {subject : Option String} {acquired : Acquired} (hL : Extends L L')
    (h : AcquiredSound config L subject acquired) : AcquiredSound config L' subject acquired := by
  cases subject with
  | none =>
    rcases h with ⟨token, heq, hissued⟩
    exact ⟨token, heq, Issued.extend hL hissued⟩
  | some subject =>
    rcases h with ⟨token, heq, hissued⟩
    exact ⟨token, heq, Issued.extend hL hissued⟩

theorem OutcomeSound.extend {outcome : Outcome} (hL : Extends L L')
    (h : OutcomeSound config L outcome) : OutcomeSound config L' outcome where
  subject subject hsubject := hL.subjects subject (h.subject subject hsubject)
  answer acquired basis hresult := by
    rcases h.answer acquired basis hresult with ⟨hacquired, hbasis⟩
    exact ⟨hacquired.extend hL, hbasis.extend hL (Nat.le_refl _)⟩

theorem Extends.refl (L : Ledger) : Extends L L := ⟨fun _ h => h, fun _ h => h⟩

theorem Extends.trans {L'' : Ledger} (h : Extends L L') (k : Extends L' L'') : Extends L L'' :=
  ⟨fun subject hmem => k.subjects subject (h.subjects subject hmem),
    fun issue hmem => k.issued issue (h.issued issue hmem)⟩

end Growing

theorem Guarantee.refl (r : Requester) (sh : Shared) : Guarantee r sh sh where
  now := Nat.le_refl _
  ledger := .refl _
  runs _ run hrun := ⟨run, hrun, rfl⟩
  holder _ _ hholder := ⟨hholder, fun _ hmem => hmem⟩
  channel _ := ⟨rfl, .inl ⟨rfl, rfl⟩⟩

theorem Guarantee.trans (h : Guarantee r sh sh') (k : Guarantee r sh' sh'') :
    Guarantee r sh sh'' where
  now := Nat.le_trans h.now k.now
  ledger := h.ledger.trans k.ledger
  runs i run hrun := by
    rcases h.runs i run hrun with ⟨run', hrun', hkey⟩
    rcases k.runs i run' hrun' with ⟨run'', hrun'', hkey'⟩
    exact ⟨run'', hrun'', hkey'.trans hkey⟩
  holder other hother hholder := by
    rcases h.holder other hother hholder with ⟨hholder', hmarks⟩
    rcases k.holder other hother hholder' with ⟨hholder'', hmarks'⟩
    exact ⟨hholder'', fun time hmem => hmarks time (hmarks' time hmem)⟩
  channel hr := by
    rcases h.channel hr with ⟨hclosed, hsame | ⟨hopen, hempty, hpending, hsent, hset⟩⟩
    · rcases k.channel hr with ⟨hclosed', hmoved⟩
      rw [hclosed, hsame.1, hsame.2] at hmoved
      exact ⟨hclosed'.trans hclosed, hmoved⟩
    · rcases k.channel hr with ⟨hclosed', hsame' | ⟨-, hempty', -⟩⟩
      · refine ⟨hclosed'.trans hclosed, .inr ⟨hopen, hempty, hpending, ?_, ?_⟩⟩
        · rw [hsame'.1]
          exact hsent
        · rw [hsame'.2]
          exact hset
      · rw [hempty'] at hsent
        cases hsent

/-- A move that keeps the invariant and what it owes to the others. -/
structure Moves (config : Config) (r : Requester) (sh sh' : Shared) : Prop where
  inv : Inv config sh'
  guarantee : Guarantee r sh sh'

theorem Moves.refl (h : Inv config sh) : Moves config r sh sh := ⟨h, .refl r sh⟩

theorem Moves.trans (h : Moves config r sh sh') (k : Moves config r sh' sh'') :
    Moves config r sh sh'' := ⟨k.inv, h.guarantee.trans k.guarantee⟩

theorem Inv.unlock (h : Inv config sh) (r : Requester) : Moves config r sh (sh.unlock r) := by
  refine ⟨{ h with }, { Guarantee.refl r sh with holder := ?_ }⟩
  intro other hother hholder
  refine ⟨?_, fun _ hmem => hmem⟩
  have hne : sh.refresh ≠ some r := by
    rw [hholder]
    exact fun heq => hother (Option.some.inj heq)
  simpa [Shared.unlock, hne] using hholder

theorem Inv.lock (h : Inv config sh) (hfree : sh.refresh = none) (r : Requester) :
    Moves config r sh { sh with refresh := some r } := by
  refine ⟨{ h with }, { Guarantee.refl r sh with holder := ?_ }⟩
  intro other hother hholder
  rw [hfree] at hholder
  cases hholder

theorem Inv.permits (h : Inv config sh) (r : Requester) (permits : ℕ) :
    Moves config r sh { sh with permits := permits } :=
  ⟨{ h with }, { Guarantee.refl r sh with }⟩

theorem Inv.drop_fetch (h : Inv config sh) (r : Requester) (fetch : Fetch) :
    Moves config r sh (sh.dropFetch fetch) := by
  by_cases hpermit : fetch.holdsPermit = true
  · rw [Shared.dropFetch, if_pos hpermit]
    exact h.permits r _
  · rw [Shared.dropFetch, if_neg hpermit]
    exact .refl h

theorem Inv.record (h : Inv config sh) {outcome : Outcome}
    (hsound : OutcomeSound config sh.ledger outcome) (r : Requester) :
    Moves config r sh (sh.record outcome) := by
  have hL : Extends sh.ledger (sh.record outcome).ledger := ⟨fun _ h => h, fun _ h => h⟩
  refine ⟨{ h with outcomes := ?_ }, { Guarantee.refl r sh with ledger := hL }⟩
  intro other hmem
  rcases List.mem_append.mp hmem with hmem | hmem
  · exact (h.outcomes other hmem).extend hL
  · rw [List.mem_singleton] at hmem
    subst hmem
    exact hsound.extend hL

/-- A request goes out once the window of every remembered failure has passed. -/
theorem Inv.send (h : Inv config sh) {grant : Grant}
    (hpassed : grant = .clientCredentials → Passed sh.ledger.marks sh.now) (r : Requester) :
    Moves config r sh (sh.send grant) := by
  cases grant with
  | tokenExchange subject => exact .refl h
  | clientCredentials =>
    have hL : Extends sh.ledger (sh.mark (.started sh.now)).ledger := ⟨fun _ h => h, fun _ h => h⟩
    have hfailed : ∀ time, .failed time ∈ sh.ledger.marks ++ [.started sh.now] →
        .failed time ∈ sh.ledger.marks := by simp
    refine ⟨{ h with remembered := ?_, spaced := ?_, outcomes := ?_ },
      { Guarantee.refl r sh with ledger := hL, holder := ?_ }⟩
    · intro time hmem
      exact h.remembered time (hfailed time hmem)
    · simp only [Shared.send, Shared.mark, List.pairwise_append]
      refine ⟨h.spaced, List.pairwise_singleton _ _, ?_⟩
      rintro mark hmem _ (_ | ⟨_, ⟨⟩⟩) failed started rfl ⟨⟩
      exact hpassed rfl failed hmem
    · exact fun outcome hmem => (h.outcomes outcome hmem).extend hL
    · exact fun other _ hholder => ⟨hholder, hfailed⟩

theorem Inv.remember (h : Inv config sh) (hholder : sh.refresh = some r)
    (hpassed : Passed sh.ledger.marks sh.now) (error : AcquisitionError) (time : ℕ) :
    Moves config r sh (rememberFailure sh error time) := by
  have hL : Extends sh.ledger (rememberFailure sh error time).ledger :=
    ⟨fun _ h => h, fun _ h => h⟩
  refine ⟨{ h with remembered := ?_, spaced := ?_, outcomes := ?_ },
    { Guarantee.refl r sh with ledger := hL, holder := ?_ }⟩
  · intro other hmem
    rcases List.mem_append.mp hmem with hmem | hmem
    · exact .inl (hpassed other hmem)
    · rw [List.mem_singleton, Mark.failed.injEq] at hmem
      subst hmem
      exact .inr ⟨_, rfl, Nat.le_refl _⟩
  · simp only [rememberFailure, Shared.mark, List.pairwise_append]
    refine ⟨h.spaced, List.pairwise_singleton _ _, ?_⟩
    rintro mark hmem _ (_ | ⟨_, ⟨⟩⟩) failed started rfl ⟨⟩
  · exact fun outcome hmem => (h.outcomes outcome hmem).extend hL
  · intro other hother hother'
    rw [hholder] at hother'
    exact absurd (Option.some.inj hother').symm hother

theorem Inv.extend (h : Inv config sh) (subjects : List String) (issued : List Issue)
    (hL : Extends sh.ledger { sh.ledger with subjects := subjects, issued := issued })
    (hissued : ∀ i issue, issued[i]? = some issue →
      issue.token.id = i ∧ Valid config subjects sh.now issue) (r : Requester) :
    Moves config r sh { sh with ledger :=
      { sh.ledger with subjects := subjects, issued := issued } } := by
  refine ⟨{ h with issued := hissued, cached := ?_, exchanged := ?_, runs := ?_, outcomes := ?_ },
    { Guarantee.refl r sh with ledger := hL }⟩
  · intro token htoken
    rcases h.cached token htoken with ⟨hservice, hcutoff⟩
    exact ⟨Issued.extend hL hservice, hcutoff⟩
  · exact fun key token htoken => Issued.extend hL (h.exchanged key token htoken)
  · exact fun i run token hrun hpublished => Issued.extend hL (h.runs i run token hrun hpublished)
  · exact fun outcome hmem => (h.outcomes outcome hmem).extend hL

theorem Inv.issue (h : Inv config sh) (issue : Issue)
    (hid : issue.token.id = sh.ledger.issued.length)
    (hvalid : Valid config sh.ledger.subjects sh.now issue) (r : Requester) :
    Moves config r sh (sh.issue issue) := by
  refine h.extend _ (sh.ledger.issued ++ [issue]) ⟨fun _ h => h, by simp +contextual⟩ ?_ r
  intro i other hother
  by_cases hi : i < sh.ledger.issued.length
  · rw [List.getElem?_append_left hi] at hother
    exact h.issued i other hother
  · have hlast : i = sh.ledger.issued.length := by
      have hlt := (List.getElem?_eq_some_iff.mp hother).1
      simp only [List.length_append, List.length_singleton] at hlt
      omega
    subst hlast
    rw [List.getElem?_append_right (Nat.le_refl _), Nat.sub_self, List.getElem?_cons_zero] at hother
    cases hother
    exact ⟨hid, hvalid⟩

theorem Inv.present (h : Inv config sh) (subjects : List String) (r : Requester) :
    Moves config r sh { sh with ledger :=
      { sh.ledger with subjects := sh.ledger.subjects ++ subjects } } := by
  refine h.extend (sh.ledger.subjects ++ subjects) _ ⟨by simp +contextual, fun _ h => h⟩ ?_ r
  intro i issue hissue
  rcases h.issued i issue hissue with ⟨hid, hvalid⟩
  refine ⟨hid, { hvalid with subject := ?_ }⟩
  exact fun subject hgrant => List.mem_append_left _ (hvalid.subject subject hgrant)

theorem Inv.issued_valid (h : Inv config sh) {issue : Issue} (hmem : issue ∈ sh.ledger.issued) :
    Valid config sh.ledger.subjects sh.now issue := by
  rcases List.getElem?_of_mem hmem with ⟨i, hi⟩
  exact (h.issued i issue hi).2

theorem Inv.issue_unique (h : Inv config sh) {issue other : Issue}
    (hmem : issue ∈ sh.ledger.issued) (hother : other ∈ sh.ledger.issued)
    (hid : issue.token.id = other.token.id) : issue = other := by
  rcases List.getElem?_of_mem hmem with ⟨i, hi⟩
  rcases List.getElem?_of_mem hother with ⟨j, hj⟩
  have hij : i = j := by
    rw [← (h.issued i issue hi).1, ← (h.issued j other hj).1]
    exact hid
  subst hij
  exact Option.some.inj (hi.symm.trans hj)

theorem Inv.token_unique (h : Inv config sh) {p q : Issue → Prop} {token other : Token}
    (htoken : Issued sh.ledger p token) (hother : Issued sh.ledger q other)
    (hid : token.id = other.id) : token = other := by
  rcases htoken with ⟨issue, hmem, rfl, -⟩
  rcases hother with ⟨issue', hmem', rfl, -⟩
  rw [h.issue_unique hmem hmem' hid]

/-- A cutoff after the start of the request is the margin before the expiry. -/
theorem Inv.reusable (h : Inv config sh) {p : Issue → Prop} {token : Token} {now cutoff : ℕ}
    (hissued : Issued sh.ledger p token) (hcutoff : token.reuseUntil = some cutoff)
    (hafter : token.acquired < cutoff) (hnow : now < cutoff) : Reusable sh.ledger now token := by
  rcases hissued with ⟨issue, hmem, rfl, -⟩
  have hvalid := h.issued_valid hmem
  rcases hvalid.cutoff with ⟨read, hread⟩
  rcases reuse_cutoff_ok hread with ⟨-, hnone⟩ | ⟨lifetime, cutoff', hlifetime, hcutoff', hmargin⟩
  · rw [hnone] at hcutoff
    cases hcutoff
  · rw [hcutoff'] at hcutoff
    cases hcutoff
    refine ⟨cutoff, hcutoff', hnow, issue, hmem, rfl, lifetime, hlifetime, ?_⟩
    rcases hmargin with hstart | hmargin
    · rw [hvalid.acquired] at hafter
      omega
    · exact hmargin

/-- A token that the clock finds reusable was started before its cutoff. -/
theorem Inv.started_before (h : Inv config sh) {p : Issue → Prop} {token : Token}
    (hissued : Issued sh.ledger p token) (hreusable : token.isReusable sh.now = true) :
    ∃ cutoff, token.reuseUntil = some cutoff ∧ token.acquired < cutoff ∧ sh.now < cutoff := by
  rcases hissued with ⟨issue, hmem, rfl, -⟩
  have hvalid := h.issued_valid hmem
  rcases (Option.any_eq_true _ _).mp hreusable with ⟨cutoff, hcutoff, hnow⟩
  have hnow' : sh.now < cutoff := of_decide_eq_true hnow
  refine ⟨cutoff, hcutoff, ?_, hnow'⟩
  rw [hvalid.acquired]
  exact Nat.lt_of_le_of_lt hvalid.past hnow'

theorem Inv.store (h : Inv config sh) (hpassed : Passed sh.ledger.marks sh.now) {token : Token}
    (htoken : IssuedService sh.ledger token) (r : Requester) :
    Moves config r sh (storeServiceToken sh token) := by
  by_cases hreusable : token.isReusable sh.now = true
  · rw [storeServiceToken, if_pos hreusable]
    refine ⟨{ h with cached := ?_, remembered := ?_ }, { Guarantee.refl r sh with }⟩
    · rintro _ ⟨⟩
      rcases h.started_before htoken hreusable with ⟨cutoff, hcutoff, hafter, -⟩
      exact ⟨htoken, cutoff, hcutoff, hafter⟩
    · exact fun time hmem => .inl (hpassed time hmem)
  · rw [storeServiceToken, if_neg hreusable]
    refine ⟨{ h with remembered := ?_ }, { Guarantee.refl r sh with }⟩
    exact fun time hmem => .inl (hpassed time hmem)

theorem Inv.defer (h : Inv config sh) (retry : ℕ) (r : Requester) :
    Moves config r sh (deferRefresh sh retry) :=
  ⟨{ h with }, { Guarantee.refl r sh with }⟩

/-- A lookup returns the cached token or nothing, and queues at most one refresh. -/
theorem Inv.reuse (h : Inv config sh) (now : ℕ) (sample : Option UInt16) (r : Requester) :
    Moves config r sh (reusableServiceToken sh now sample).1 ∧
      ∀ token, (reusableServiceToken sh now sample).2 = some token →
        sh.cached.token = some token ∧ token.isReusable now = true := by
  simp only [reusableServiceToken]
  split
  · exact ⟨.refl h, by simp⟩
  · next token htoken =>
    rcases Option.filter_eq_some_iff.mp htoken with ⟨hcached, hreusable⟩
    by_cases hdue : sh.cached.refreshAfter.any (· ≤ now) = true ∧
        sh.cached.refreshPending = false ∧ sh.cached.failure.all (·.cutoff ≤ now) = true
    · rw [if_pos hdue]
      by_cases hfull : sh.closed = true ∨ 1 ≤ sh.queue.length
      · simp only [Shared.trySend, hfull, if_true]
        refine ⟨⟨{ h with }, { Guarantee.refl r sh with channel := ?_ }⟩, ?_⟩
        · exact fun _ => ⟨rfl, .inl ⟨rfl, hdue.2.1.symm⟩⟩
        · rintro _ ⟨⟩
          exact ⟨hcached, hreusable⟩
      · simp only [Shared.trySend, hfull, if_false]
        rw [not_or, Bool.not_eq_true, Nat.not_le, Nat.lt_one_iff, List.length_eq_zero_iff] at hfull
        refine ⟨⟨{ h with }, { Guarantee.refl r sh with channel := ?_ }⟩, ?_⟩
        · exact fun _ => ⟨rfl, .inr ⟨hfull.1, hfull.2, hdue.2.1, by simp [hfull.2], rfl⟩⟩
        · rintro _ ⟨⟩
          exact ⟨hcached, hreusable⟩
    · rw [if_neg hdue]
      refine ⟨.refl h, ?_⟩
      rintro _ ⟨⟩
      exact ⟨hcached, hreusable⟩

theorem reuse_none {now : ℕ} {sample : Option UInt16}
    (h : reusableServiceToken sh now sample = (sh', none)) : sh' = sh := by
  simp only [reusableServiceToken] at h
  split at h
  · exact (Prod.mk.inj h).1.symm
  · split at h
    · split at h
      · cases h
      · cases h
    · cases h

theorem Inv.forget (h : Inv config sh) (key : Key) (used : Token) (r : Requester) :
    Moves config r sh (forgetExchanged sh key used) := by
  by_cases hholds : holds (sh.exchanged key) used = true
  · rw [forgetExchanged, if_pos hholds]
    refine ⟨{ h with exchanged := ?_ }, { Guarantee.refl r sh with }⟩
    intro key' token htoken
    by_cases hkey : key' = key
    · subst hkey
      simp at htoken
    · exact h.exchanged key' token (by simpa [hkey] using htoken)
  · rw [forgetExchanged, if_neg hholds]
    exact .refl h

theorem Inv.reject (h : Inv config sh) (acquired : Acquired) (r : Requester) :
    Moves config r sh (rejectAcquired sh acquired) := by
  cases acquired with
  | exchanged key token => exact h.forget key token r
  | service token =>
    by_cases hholds : holds sh.cached.token token = true
    · rw [rejectAcquired, rejectServiceToken, if_pos hholds]
      exact ⟨{ h with cached := by simp }, { Guarantee.refl r sh with }⟩
    · rw [rejectAcquired, rejectServiceToken, if_neg hholds]
      exact .refl h

theorem Inv.lead (h : Inv config sh) (key : Key) (r : Requester) :
    Moves config r sh { sh with
      runs := sh.runs ++ [⟨key, none⟩]
      fills := Function.update sh.fills key (some sh.runs.length) } := by
  have hold : ∀ (i : RunId) run, sh.runs[i]? = some run →
      (sh.runs ++ [⟨key, none⟩])[i]? = some run := by
    intro i run hrun
    rw [List.getElem?_append_left (List.getElem?_eq_some_iff.mp hrun).1]
    exact hrun
  refine ⟨{ h with runs := ?_, fills := ?_ }, { Guarantee.refl r sh with runs := ?_ }⟩
  · intro i run token hrun hpublished
    by_cases hi : i < sh.runs.length
    · rw [List.getElem?_append_left hi] at hrun
      exact h.runs i run token hrun hpublished
    · have hnew := List.mem_of_getElem? (List.getElem?_append_right (Nat.not_lt.mp hi) ▸ hrun)
      rw [List.mem_singleton] at hnew
      subst hnew
      cases hpublished
  · intro key' i hfill
    by_cases hkey : key' = key
    · subst hkey
      simp only [Function.update_self, Option.some.injEq] at hfill
      subst hfill
      exact ⟨⟨key', none⟩, by simp, rfl⟩
    · simp only [Function.update_of_ne hkey] at hfill
      rcases h.fills key' i hfill with ⟨run, hrun, hrunkey⟩
      exact ⟨run, hold i run hrun, hrunkey⟩
  · exact fun i run hrun => ⟨run, hold i run hrun, rfl⟩

/-- The end of a run; a token it publishes was issued for the run's key. -/
theorem Inv.publish (h : Inv config sh) {key : Key} {i : RunId} {run : Run}
    (hrun : sh.runs[i]? = some run) {published : Published}
    (htoken : ∀ token, published = .token token → IssuedFor config sh.ledger run.key token)
    (r : Requester) : Moves config r sh (sh.publish key i published) := by
  have hmodify : ∀ (j : RunId) run', sh.runs[j]? = some run' → ∃ run'',
      (sh.publish key i published).runs[j]? = some run'' ∧ run''.key = run'.key := by
    intro j run' hrun'
    simp only [Shared.publish, List.getElem?_modify]
    by_cases hj : i = j
    · exact ⟨{ run' with published := some published }, by simp [hj, hrun'], rfl⟩
    · exact ⟨run', by simp [hj, hrun'], rfl⟩
  refine ⟨{ h with runs := ?_, fills := ?_ }, { Guarantee.refl r sh with runs := hmodify }⟩
  · intro j run' token hrun' hpublished
    simp only [Shared.publish, List.getElem?_modify] at hrun'
    by_cases hj : i = j
    · subst hj
      simp only [if_true, hrun, Option.map_eq_map, Option.map_some, Option.some.injEq] at hrun'
      subst hrun'
      exact htoken token (Option.some.inj hpublished)
    · exact h.runs j run' token (by simpa [hj] using hrun') hpublished
  · intro key' j hfill
    by_cases hkey : key' = key
    · subst hkey
      simp [Shared.publish] at hfill
    · simp only [Shared.publish, Function.update_of_ne hkey] at hfill
      rcases h.fills key' j hfill with ⟨run', hrun', hrunkey⟩
      rcases hmodify j run' hrun' with ⟨run'', hrun'', hkey''⟩
      exact ⟨run'', hrun'', hkey''.trans hrunkey⟩

theorem Inv.insert (h : Inv config sh) {key : Key} {token : Token}
    (htoken : IssuedFor config sh.ledger key token) (r : Requester) :
    Moves config r sh { sh with exchanged := Function.update sh.exchanged key (some token) } := by
  refine ⟨{ h with exchanged := ?_ }, { Guarantee.refl r sh with }⟩
  intro key' other hother
  by_cases hkey : key' = key
  · subst hkey
    simp only [Function.update_self, Option.some.injEq] at hother
    exact hother ▸ htoken
  · simp only [Function.update_of_ne hkey] at hother
    exact h.exchanged key' other hother

def Sent (config : Config) (grant : Grant) (now started : ℕ) (request : List Char) : Prop :=
  started ≤ now ∧ ∃ assertion, request = config.body assertion grant

def FetchSound (config : Config) (sh : Shared) (r : Requester) (grant : Grant) : Fetch → Prop
  | .attempt started => started ≤ sh.now
  | .permit started => started ≤ sh.now
  | .signing started => started ≤ sh.now
  | .requesting started request => Sent config grant sh.now started request
  | .parsing started request _ => Sent config grant sh.now started request
  | .building started request _ _ => Sent config grant sh.now started request
  | .done (.ok token) => IssuedTo sh.ledger r grant token
  | _ => True

structure Entered (sh : Shared) (subject : Option String) (began : ℕ) : Prop where
  began : began ≤ sh.now
  presented : ∀ presented, subject = some presented → presented ∈ sh.ledger.subjects

/-- A task that `passed` the check for remembered failures still holds the lock it made it
under. -/
structure Holding (sh : Shared) (r : Requester) (locked passed : Bool) : Prop where
  holder : locked = true → sh.refresh = some r
  passed : passed = true → locked = true ∧ Passed sh.ledger.marks sh.now

def locked : ServiceStage → Bool
  | .admission locked _ => locked
  | .clock locked => locked
  | .looking locked _ => locked
  | .locking => false
  | _ => true

def passed : ServiceStage → Bool
  | .fetching _ _ _ => true
  | .fetched _ _ => true
  | .storing _ => true
  | .remembering _ => true
  | .writing _ _ => true
  | _ => false

def ServiceSound (config : Config) (sh : Shared) (c : CallId) (began : ℕ) : ServiceStage → Prop
  | .looking _ now => began ≤ now ∧ now ≤ sh.now
  | .failures now => now ≤ sh.now
  | .fetching _ _ fetch => FetchSound config sh (.call c) .clientCredentials fetch
  | .fetched _ (.ok token) => IssuedTo sh.ledger (.call c) .clientCredentials token
  | .storing token => IssuedTo sh.ledger (.call c) .clientCredentials token
  | _ => True

def RunOf (sh : Shared) (i : RunId) (key : Key) : Prop :=
  ∃ run, sh.runs[i]? = some run ∧ run.key = key

def ExchangeSound (config : Config) (sh : Shared) (c : CallId) (subject : String) :
    ExchangeStage → Prop
  | .joined i _ => RunOf sh i (config.subjectKey subject)
  | .leading i _ fetch => RunOf sh i (config.subjectKey subject) ∧
      FetchSound config sh (.call c) (.tokenExchange subject) fetch
  | .received token fresh => IssuedFor config sh.ledger (config.subjectKey subject) token ∧
      (fresh = true → Issued sh.ledger (fun issue => issue.requester = .call c) token)
  | _ => True

def lockedStage : DriverStage → Bool
  | .clock _ => true
  | .failures _ _ => true
  | .comparing _ => true
  | .fetching _ _ => true
  | .storing _ => true
  | .sampling => true
  | .deferring _ => true
  | .remembering _ => true
  | .writing _ _ => true
  | _ => false

def passedStage : DriverStage → Bool
  | .comparing _ => true
  | .fetching _ _ => true
  | .storing _ => true
  | .remembering _ => true
  | .writing _ _ => true
  | _ => false

def isShut : DriverStage → Bool
  | .closing _ => true
  | .cleared => true
  | .gone => true
  | _ => false

def isUnset : DriverStage → Bool
  | .cleared => true
  | .gone => true
  | _ => false

def load (queue : List RefreshRequest) (stage : DriverStage) : ℕ :=
  queue.length + if stage.handling then 1 else 0

structure Channel (sh : Shared) (stage : DriverStage) : Prop where
  shut : sh.closed = isShut stage
  room : load sh.queue stage ≤ 1
  pending : sh.cached.refreshPending = true → load sh.queue stage = 1
  free : sh.closed = false → sh.cached.refreshPending = false → load sh.queue stage = 0
  unset : isUnset stage = true → sh.cached.refreshPending = false

def DriverStageSound (config : Config) (sh : Shared) : DriverStage → Prop
  | .failures _ now => now ≤ sh.now
  | .fetching _ fetch => FetchSound config sh .driver .clientCredentials fetch
  | .storing token => IssuedTo sh.ledger .driver .clientCredentials token
  | _ => True

structure DriverSound (config : Config) (sh : Shared) (stage : DriverStage) : Prop where
  holding : Holding sh .driver (lockedStage stage) (passedStage stage)
  channel : Channel sh stage
  stage : DriverStageSound config sh stage

structure ServiceCall (config : Config) (sh : Shared) (c : CallId) (call : Call)
    (stage : ServiceStage) : Prop where
  entered : Entered sh call.subject call.began
  acting : call.subject = none
  holding : Holding sh (.call c) (locked stage) (passed stage)
  stage : ServiceSound config sh c call.began stage

structure ExchangeCall (config : Config) (sh : Shared) (c : CallId) (call : Call)
    (subject : String) (stage : ExchangeStage) : Prop where
  entered : Entered sh call.subject call.began
  acting : call.subject = some subject
  stage : ExchangeSound config sh c subject stage

structure AcquiredCall (config : Config) (sh : Shared) (c : CallId) (call : Call)
    (acquired : Acquired) (basis : Basis) : Prop where
  entered : Entered sh call.subject call.began
  sound : AcquiredSound config sh.ledger call.subject acquired
  basis : BasisSound sh.ledger c call.began sh.now acquired.token basis

def TaskSound (config : Config) (sh : Shared) : Requester → Task → Prop
  | .call _, .absent => True
  | .call _, .finished => True
  | .call _, .bounding _ subject began => Entered sh subject began
  | .call _, .admitting call _ => Entered sh call.subject call.began
  | .call c, .service call stage => ServiceCall config sh c call stage
  | .call c, .exchange call subject stage => ExchangeCall config sh c call subject stage
  | .call c, .acquired call acquired basis => AcquiredCall config sh c call acquired basis
  | .call _, .dispatched acquired => Issued sh.ledger (fun _ => True) acquired.token
  | .call _, .rejecting acquired => Issued sh.ledger (fun _ => True) acquired.token ∧
      acquired.token.acquired + evictionMinAge ≤ sh.now
  | .driver, .driver stage => DriverSound config sh stage
  | _, _ => False

/-- Neither the channel nor what the driver owes it has changed. -/
theorem Channel.move {stage stage' : DriverStage} (h : Channel sh stage)
    (hclosed : sh'.closed = sh.closed) (hqueue : sh'.queue = sh.queue)
    (hpending : sh'.cached.refreshPending = sh.cached.refreshPending)
    (hshut : isShut stage' = isShut stage)
    (hhandling : stage'.handling = stage.handling)
    (hunset : isUnset stage' = isUnset stage) : Channel sh' stage' := by
  have hload : load sh'.queue stage' = load sh.queue stage := by
    rw [load, load, hqueue, hhandling]
  constructor
  · rw [hclosed, hshut]
    exact h.shut
  · rw [hload]
    exact h.room
  · rw [hload, hpending]
    exact h.pending
  · rw [hload, hpending, hclosed]
    exact h.free
  · rw [hunset, hpending]
    exact h.unset

theorem unset_shut {stage : DriverStage} (h : isUnset stage = true) : isShut stage = true := by
  cases stage <;> first | rfl | cases h

section Stable

variable {other : Requester} (hg : Guarantee other sh sh')
include hg

theorem Sent.stable {grant : Grant} {started : ℕ} {request : List Char}
    (h : Sent config grant sh.now started request) : Sent config grant sh'.now started request :=
  ⟨Nat.le_trans h.1 hg.now, h.2⟩

theorem FetchSound.stable {grant : Grant} {fetch : Fetch} (h : FetchSound config sh r grant fetch) :
    FetchSound config sh' r grant fetch := by
  cases fetch with
  | starting => exact trivial
  | attempt started => exact Nat.le_trans h hg.now
  | permit started => exact Nat.le_trans h hg.now
  | signing started => exact Nat.le_trans h hg.now
  | requesting started request => exact Sent.stable hg h
  | parsing started request response => exact Sent.stable hg h
  | building started request response now => exact Sent.stable hg h
  | done result =>
    cases result with
    | error error => exact trivial
    | ok token => exact Issued.extend hg.ledger h

theorem Entered.stable {subject : Option String} {began : ℕ} (h : Entered sh subject began) :
    Entered sh' subject began where
  began := Nat.le_trans h.began hg.now
  presented presented heq := hg.ledger.subjects _ (h.presented presented heq)

theorem RunOf.stable {i : RunId} {key : Key} (h : RunOf sh i key) : RunOf sh' i key := by
  rcases h with ⟨run, hrun, hkey⟩
  rcases hg.runs i run hrun with ⟨run', hrun', hkey'⟩
  exact ⟨run', hrun', hkey'.trans hkey⟩

theorem Holding.stable {locked passed : Bool} (hne : r ≠ other) (h : Holding sh r locked passed) :
    Holding sh' r locked passed where
  holder hlocked := (hg.holder r hne (h.holder hlocked)).1
  passed hpassed := by
    rcases h.passed hpassed with ⟨hlocked, hall⟩
    refine ⟨hlocked, fun time hmem => Nat.le_trans (hall time ?_) hg.now⟩
    exact (hg.holder r hne (h.holder hlocked)).2 time hmem

theorem ServiceSound.stable {began : ℕ} {stage : ServiceStage}
    (h : ServiceSound config sh c began stage) : ServiceSound config sh' c began stage := by
  cases stage with
  | looking locked now => exact ⟨h.1, Nat.le_trans h.2 hg.now⟩
  | failures now => exact Nat.le_trans h hg.now
  | fetching deadline shortened fetch => exact FetchSound.stable hg h
  | storing token => exact Issued.extend hg.ledger h
  | fetched shortened result =>
    cases result with
    | error error => exact trivial
    | ok token => exact Issued.extend hg.ledger h
  | _ => exact trivial

theorem ExchangeSound.stable {subject : String} {stage : ExchangeStage}
    (h : ExchangeSound config sh c subject stage) : ExchangeSound config sh' c subject stage := by
  cases stage with
  | joined i deadline => exact RunOf.stable hg h
  | leading i deadline fetch => exact ⟨RunOf.stable hg h.1, FetchSound.stable hg h.2⟩
  | received token fresh =>
    exact ⟨Issued.extend hg.ledger h.1, fun hfresh => (h.2 hfresh).extend hg.ledger⟩
  | _ => exact trivial

theorem DriverStageSound.stable {stage : DriverStage} (h : DriverStageSound config sh stage) :
    DriverStageSound config sh' stage := by
  cases stage with
  | failures request now => exact Nat.le_trans h hg.now
  | fetching request fetch => exact FetchSound.stable hg h
  | storing token => exact Issued.extend hg.ledger h
  | _ => exact trivial

theorem Channel.stable {stage : DriverStage} (hne : other ≠ .driver) (h : Channel sh stage) :
    Channel sh' stage := by
  rcases hg.channel hne with ⟨hclosed, ⟨hqueue, hpending⟩ | ⟨hopen, hempty, hpending, hone, hset⟩⟩
  · exact h.move hclosed hqueue hpending rfl rfl rfl
  · have hidle : load sh.queue stage = 0 := h.free hopen hpending
    have hload : load sh'.queue stage = 1 := by
      simp only [load, hempty, List.length_nil] at hidle
      simp only [load, hone]
      omega
    constructor
    · rw [hclosed]
      exact h.shut
    · exact Nat.le_of_eq hload
    · exact fun _ => hload
    · rw [hset]
      simp
    · intro hunset
      rw [h.shut, unset_shut hunset] at hopen
      cases hopen

theorem TaskSound.stable {task : Task} (hne : r ≠ other) (h : TaskSound config sh r task) :
    TaskSound config sh' r task := by
  cases r with
  | driver =>
    cases task with
    | driver stage =>
      exact ⟨h.holding.stable hg hne, h.channel.stable hg hne.symm, h.stage.stable hg⟩
    | _ => exact h
  | call c =>
    cases task with
    | absent => exact trivial
    | finished => exact trivial
    | bounding context subject began => exact Entered.stable hg h
    | admitting call admission => exact Entered.stable hg h
    | service call stage =>
      exact ⟨h.entered.stable hg, h.acting, h.holding.stable hg hne, h.stage.stable hg⟩
    | exchange call subject stage =>
      exact ⟨h.entered.stable hg, h.acting, h.stage.stable hg⟩
    | acquired call acquired basis =>
      exact ⟨h.entered.stable hg, h.sound.extend hg.ledger, h.basis.extend hg.ledger hg.now⟩
    | dispatched acquired => exact Issued.extend hg.ledger h
    | rejecting acquired => exact ⟨h.1.extend hg.ledger, Nat.le_trans h.2 hg.now⟩
    | driver stage => exact h

end Stable

/-- A request leaves alone everything but the permits and the ledger, and marks no failure. -/
structure Apart (sh sh' : Shared) : Prop where
  now : sh'.now = sh.now
  cached : sh'.cached = sh.cached
  refresh : sh'.refresh = sh.refresh
  queue : sh'.queue = sh.queue
  closed : sh'.closed = sh.closed
  failed : ∀ time, .failed time ∈ sh'.ledger.marks → .failed time ∈ sh.ledger.marks

theorem Apart.refl (sh : Shared) : Apart sh sh := ⟨rfl, rfl, rfl, rfl, rfl, fun _ h => h⟩

theorem Apart.send (sh : Shared) (grant : Grant) : Apart sh (sh.send grant) := by
  cases grant with
  | clientCredentials => exact ⟨rfl, rfl, rfl, rfl, rfl, by simp [Shared.send, Shared.mark]⟩
  | tokenExchange subject => exact .refl sh

theorem Holding.apart {locked passed : Bool} (ha : Apart sh sh') (h : Holding sh r locked passed) :
    Holding sh' r locked passed where
  holder hlocked := by
    rw [ha.refresh]
    exact h.holder hlocked
  passed hpassed := by
    rcases h.passed hpassed with ⟨hlocked, hall⟩
    refine ⟨hlocked, fun time hmem => ?_⟩
    rw [ha.now]
    exact hall time (ha.failed time hmem)

theorem fetch_step {grant : Grant} {deadline : ℕ} {fetch fetch' : Fetch} {input : Input}
    (h : Inv config sh)
    (hsubject : ∀ subject, grant = .tokenExchange subject → subject ∈ sh.ledger.subjects)
    (hpassed : grant = .clientCredentials → Passed sh.ledger.marks sh.now)
    (hfetch : FetchSound config sh r grant fetch)
    (hstep : fetch.step config r grant deadline sh input = some (sh', fetch')) :
    Moves config r sh sh' ∧ FetchSound config sh' r grant fetch' ∧ Apart sh sh' := by
  have hpermit : ∀ permits, Apart sh { sh with permits := permits } :=
    fun _ => ⟨rfl, rfl, rfl, rfl, rfl, fun _ h => h⟩
  simp only [Fetch.step] at hstep
  split at hstep
  · cases hstep
    exact ⟨.refl h, Nat.le_refl _, .refl _⟩
  · next started =>
    split at hstep
    · cases hstep
      exact ⟨.refl h, trivial, .refl _⟩
    · cases hstep
      exact ⟨.refl h, hfetch, .refl _⟩
  · next started =>
    split at hstep
    · cases hstep
      exact ⟨.refl h, trivial, .refl _⟩
    · cases hstep
      exact ⟨h.permits r _, hfetch, hpermit _⟩
  · cases hstep
    exact ⟨h.permits r _, trivial, hpermit _⟩
  · next started assertion =>
    cases hstep
    have hapart := Apart.send sh grant
    refine ⟨h.send hpassed r, ⟨?_, assertion, rfl⟩, hapart⟩
    rw [hapart.now]
    exact hfetch
  · next started request reply =>
    split at hstep
    · cases hstep
      exact ⟨h.permits r _, trivial, hpermit _⟩
    · cases hstep
      exact ⟨.refl h, hfetch, .refl _⟩
  · split at hstep
    · cases hstep
      exact ⟨h.permits r _, trivial, hpermit _⟩
    · cases hstep
  · cases hstep
    exact ⟨.refl h, hfetch, .refl _⟩
  · next started request response now sample =>
    split at hstep
    · cases hstep
      exact ⟨h.permits r _, trivial, hpermit _⟩
    · next token htoken =>
      cases hstep
      rcases into_token_ok htoken with ⟨hid, hacquired, hcutoff⟩
      rcases hfetch with ⟨hstarted, hrequest⟩
      have hreturned : Moves config r sh sh.returnPermit := h.permits r _
      have hissued := hreturned.inv.issue ⟨r, grant, request, response, started, token⟩ hid
        ⟨hrequest, hstarted, hacquired, ⟨now, hcutoff⟩, hsubject⟩ r
      refine ⟨hreturned.trans hissued,
        ⟨⟨r, grant, request, response, started, token⟩, ?_, rfl, rfl, rfl⟩, ?_⟩
      · exact List.mem_append_right _ (List.mem_singleton_self _)
      · exact ⟨rfl, rfl, rfl, rfl, rfl, fun _ h => h⟩
  · cases hstep

theorem Inv.refuse (h : Inv config sh) {subject : Option String} {began : ℕ}
    (hentered : Entered sh subject began) (error : AcquisitionError) :
    Moves config (.call c) sh (refuse sh c subject began error).1 := by
  have hunlock := h.unlock (.call c)
  exact hunlock.trans (hunlock.inv.record ⟨hentered.presented, by simp⟩ (.call c))

/-- Under the refresh lock, no remembered failure means that every window has passed. -/
theorem Inv.passed (h : Inv config sh) {now : ℕ} (hnow : now ≤ sh.now)
    (hnone : completedFailure sh now = none) : Passed sh.ledger.marks sh.now := by
  intro time hmem
  rcases h.remembered time hmem with hpast | ⟨completed, hcompleted, hcutoff⟩
  · exact hpast
  · have hover : completed.cutoff ≤ now := by simpa [completedFailure, hcompleted] using hnone
    omega

theorem settle_ok {deadline now : ℕ} {result : Except AcquisitionError Token} {token : Token}
    (h : settle deadline now result = .ok token) : result = .ok token := by
  by_cases hlate : deadline ≤ now
  · simp [settle, hlate] at h
  · simpa [settle, hlate] using h

/-- The token a request has brought, past the last read of its clock. -/
theorem FetchSound.settled {grant : Grant} {deadline now : ℕ}
    {result : Except AcquisitionError Token} {token : Token}
    (h : FetchSound config sh r grant (.done result))
    (hsettle : settle deadline now result = .ok token) : IssuedTo sh.ledger r grant token := by
  rw [settle_ok hsettle] at h
  exact h

theorem service_step {call : Call} {stage : ServiceStage} {input : Input} {task : Task}
    (h : Inv config sh) (hs : ServiceCall config sh c call stage)
    (hstep : serviceStep config c call sh stage input = some (sh', task)) :
    Moves config (.call c) sh sh' ∧ TaskSound config sh' (.call c) task := by
  have hrefuse : ∀ error, Moves config (.call c) sh (call.refuse sh c error).1 :=
    fun error => h.refuse hs.entered error
  simp only [serviceStep] at hstep
  split at hstep
  · next locked admission =>
    split at hstep
    · cases hstep
      exact ⟨.refl h, { hs with holding := hs.holding, stage := trivial }⟩
    · cases hstep
      exact ⟨.refl h, { hs with holding := hs.holding, stage := trivial }⟩
    · cases hstep
      exact ⟨hrefuse _, trivial⟩
  · next locked =>
    cases hstep
    exact ⟨.refl h, { hs with
      holding := hs.holding, stage := ⟨hs.entered.began, Nat.le_refl _⟩ }⟩
  · next locked now sample =>
    rcases hs.stage with ⟨hbegan, hnow⟩
    split at hstep
    · next found token hfound =>
      cases hstep
      rcases h.reuse now sample (.call c) with ⟨hmoves, htoken⟩
      rw [hfound] at hmoves htoken
      rcases htoken token rfl with ⟨hcached, hreusable⟩
      rcases h.cached token hcached with ⟨hservice, cutoff, hcutoff, hafter⟩
      have hbefore : now < cutoff := by simpa [Token.isReusable, hcutoff] using hreusable
      have hall := hmoves.trans (hmoves.inv.unlock (.call c))
      have hsound : AcquiredSound config sh.ledger call.subject (.service token) := by
        rw [hs.acting]
        exact ⟨token, rfl, hservice⟩
      refine ⟨hall, hs.entered.stable hall.guarantee, hsound.extend hall.guarantee.ledger, hbegan,
        Nat.le_trans hnow hall.guarantee.now, ?_⟩
      exact (h.reusable hservice hcutoff hafter hbefore).extend hall.guarantee.ledger
    · next found hfound =>
      cases hstep
      rw [reuse_none hfound]
      refine ⟨.refl h, ?_⟩
      by_cases hlocked : locked = true
      · subst hlocked
        exact { hs with holding := hs.holding, stage := hnow }
      · rw [if_neg hlocked]
        exact { hs with holding := ⟨by simp [OAuthAcquisition.locked], by simp [passed]⟩, stage := trivial }
  · split at hstep
    · next hfree =>
      cases hstep
      have hlock := h.lock hfree (.call c)
      exact ⟨hlock, hs.entered.stable hlock.guarantee, hs.acting,
        ⟨fun _ => rfl, by simp [passed]⟩, trivial⟩
    · cases hstep
  · split at hstep
    · cases hstep
      exact ⟨hrefuse _, trivial⟩
    · cases hstep
  · next now =>
    split at hstep
    · cases hstep
      exact ⟨hrefuse _, trivial⟩
    · next hnone =>
      cases hstep
      have hpassed := h.passed hs.stage hnone
      exact ⟨.refl h, { hs with
        holding := ⟨hs.holding.holder, fun _ => ⟨rfl, hpassed⟩⟩, stage := trivial }⟩
  · next deadline shortened fetch =>
    split at hstep
    · next result =>
      cases hstep
      refine ⟨.refl h, { hs with holding := hs.holding, stage := ?_ }⟩
      cases hsettle : settle deadline sh.now result with
      | error error => exact trivial
      | ok token => exact hs.stage.settled hsettle
    · rcases Option.map_eq_some_iff.mp hstep with ⟨⟨sent, fetch'⟩, hfetch, heq⟩
      cases heq
      have hpassed := (hs.holding.passed rfl).2
      rcases fetch_step h (by simp) (fun _ => hpassed) hs.stage hfetch with ⟨hmoves, hsound, hapart⟩
      exact ⟨hmoves, hs.entered.stable hmoves.guarantee, hs.acting, hs.holding.apart hapart, hsound⟩
  · next shortened result =>
    split at hstep
    · cases hstep
      exact ⟨hrefuse _, trivial⟩
    · split at hstep
      · next token =>
        cases hstep
        exact ⟨.refl h, { hs with holding := hs.holding, stage := hs.stage }⟩
      · split at hstep
        · cases hstep
          exact ⟨.refl h, { hs with holding := hs.holding, stage := trivial }⟩
        · cases hstep
          exact ⟨hrefuse _, trivial⟩
  · next token =>
    cases hstep
    have hservice : IssuedService sh.ledger token := Issued.imp (fun _ hp => hp.2) hs.stage
    have hstore := h.store (hs.holding.passed rfl).2 hservice (.call c)
    have hall := hstore.trans (hstore.inv.unlock (.call c))
    have hsound : AcquiredSound config sh.ledger call.subject (.service token) := by
      rw [hs.acting]
      exact ⟨token, rfl, hservice⟩
    refine ⟨hall, hs.entered.stable hall.guarantee, hsound.extend hall.guarantee.ledger, ?_⟩
    exact (Issued.imp (fun _ hp => hp.1) hs.stage).extend hall.guarantee.ledger
  · cases hstep
    exact ⟨.refl h, { hs with holding := hs.holding, stage := trivial }⟩
  · next error time =>
    cases hstep
    have hremember := h.remember (hs.holding.holder rfl) (hs.holding.passed rfl).2 error time
    have hentered := hs.entered.stable hremember.guarantee
    exact ⟨hremember.trans (hremember.inv.refuse hentered error), trivial⟩
  · cases hstep

theorem Inv.publish_own (h : Inv config sh) {key : Key} {i : RunId} (hrun : RunOf sh i key)
    (published : Published)
    (htoken : ∀ token, published = .token token → IssuedFor config sh.ledger key token)
    (r : Requester) : Moves config r sh (sh.publish key i published) := by
  rcases hrun with ⟨run, hrun, rfl⟩
  exact h.publish hrun htoken r

/-- A leader that goes away leaves its run to the callers that wait for it. -/
theorem Inv.abandon (h : Inv config sh) {key : Key} {i : RunId} (hrun : RunOf sh i key)
    (fetch : Fetch) (r : Requester) :
    Moves config r sh ((sh.dropFetch fetch).publish key i .abandoned) := by
  have hdrop := h.drop_fetch r fetch
  exact hdrop.trans (hdrop.inv.publish_own (hrun.stable hdrop.guarantee) .abandoned (by simp) r)

theorem exchange_step {call : Call} {subject : String} {stage : ExchangeStage} {input : Input}
    {task : Task} (h : Inv config sh) (hs : ExchangeCall config sh c call subject stage)
    (hstep : exchangeStep config c call subject sh stage input = some (sh', task)) :
    Moves config (.call c) sh sh' ∧ TaskSound config sh' (.call c) task := by
  have hrefuse : ∀ error, Moves config (.call c) sh (call.refuse sh c error).1 :=
    fun error => h.refuse hs.entered error
  have hacquired : ∀ token, IssuedFor config sh.ledger (config.subjectKey subject) token →
      AcquiredSound config sh.ledger call.subject
        (.exchanged (config.subjectKey subject) token) := by
    intro token htoken
    rw [hs.acting]
    exact ⟨token, rfl, htoken⟩
  simp only [exchangeStep] at hstep
  split at hstep
  · split at hstep
    · cases hstep
      exact ⟨.refl h, { hs with stage := trivial }⟩
    · cases hstep
      exact ⟨.refl h, { hs with stage := trivial }⟩
    · cases hstep
      exact ⟨hrefuse _, trivial⟩
  · cases hstep
    exact ⟨.refl h, { hs with stage := trivial }⟩
  · split at hstep
    · next token htoken =>
      cases hstep
      exact ⟨.refl h, { hs with stage := ⟨h.exchanged _ _ htoken, by simp⟩ }⟩
    · next i _ hfill =>
      cases hstep
      exact ⟨.refl h, { hs with stage := h.fills _ i hfill }⟩
    · cases hstep
      have hlead := h.lead (config.subjectKey subject) (.call c)
      exact ⟨hlead, hs.entered.stable hlead.guarantee, hs.acting,
        ⟨⟨config.subjectKey subject, none⟩, by simp, rfl⟩, trivial⟩
  · split at hstep
    · cases hstep
      exact ⟨hrefuse _, trivial⟩
    · cases hstep
  · next i deadline =>
    split at hstep
    · cases hstep
    · next token hpublished =>
      cases hstep
      rcases hs.stage with ⟨run, hrun, hkey⟩
      rw [hrun, Option.bind_some] at hpublished
      have htoken := hkey ▸ h.runs i run token hrun hpublished
      exact ⟨.refl h, { hs with stage := ⟨htoken, by simp⟩ }⟩
    · cases hstep
      exact ⟨hrefuse _, trivial⟩
    · cases hstep
      exact ⟨.refl h, { hs with stage := trivial }⟩
  · split at hstep
    · cases hstep
      exact ⟨hrefuse _, trivial⟩
    · cases hstep
  · next i deadline fetch =>
    split at hstep
    · cases hstep
      have habandon := h.abandon hs.stage.1 fetch (.call c)
      have hentered := hs.entered.stable habandon.guarantee
      exact ⟨habandon.trans (habandon.inv.refuse hentered _), trivial⟩
    · cases hstep
  · next i deadline fetch _ =>
    split at hstep
    · next token _ =>
      cases hstep
      have hissued : IssuedTo sh.ledger (.call c) (.tokenExchange subject) token := hs.stage.2
      have htoken : IssuedFor config sh.ledger (config.subjectKey subject) token :=
        hissued.imp fun _ hp => ⟨subject, hp.2, rfl⟩
      have hpublish := h.publish_own hs.stage.1 (.token token)
        (fun _ heq => Published.token.inj heq ▸ htoken) (.call c)
      have hall := hpublish.trans
        (hpublish.inv.insert (Issued.extend hpublish.guarantee.ledger htoken) (.call c))
      refine ⟨hall, hs.entered.stable hall.guarantee, hs.acting,
        Issued.extend hall.guarantee.ledger htoken, fun _ => ?_⟩
      exact (hissued.imp fun _ hp => hp.1).extend hall.guarantee.ledger
    · next error _ =>
      cases hstep
      have hpublish := h.publish_own hs.stage.1 (.error error) (by simp) (.call c)
      have hentered := hs.entered.stable hpublish.guarantee
      exact ⟨hpublish.trans (hpublish.inv.refuse hentered error), trivial⟩
    · rcases Option.map_eq_some_iff.mp hstep with ⟨⟨sent, fetch'⟩, hfetch, heq⟩
      cases heq
      have hsubject : ∀ other, Grant.tokenExchange subject = .tokenExchange other →
          other ∈ sh.ledger.subjects := by
        rintro _ ⟨⟩
        exact hs.entered.presented subject hs.acting
      rcases fetch_step h hsubject (by simp) hs.stage.2 hfetch with ⟨hmoves, hsound, -⟩
      exact ⟨hmoves, hs.entered.stable hmoves.guarantee, hs.acting,
        hs.stage.1.stable hmoves.guarantee, hsound⟩
  · next token fresh =>
    rcases hs.stage with ⟨htoken, hfresh⟩
    split at hstep
    · next hinitializer =>
      cases hstep
      exact ⟨.refl h, hs.entered, hacquired token htoken, hfresh hinitializer⟩
    · split at hstep
      · next hreusable =>
        cases hstep
        rcases h.started_before htoken hreusable with ⟨cutoff, hcutoff, hafter, hnow⟩
        exact ⟨.refl h, hs.entered, hacquired token htoken, hs.entered.began, Nat.le_refl _,
          h.reusable htoken hcutoff hafter hnow⟩
      · cases hstep
        exact ⟨.refl h, { hs with stage := trivial }⟩
  · next token =>
    cases hstep
    have hforget := h.forget (config.subjectKey subject) token (.call c)
    exact ⟨hforget, hs.entered.stable hforget.guarantee, hs.acting, trivial⟩
  · cases hstep

theorem drop_call {task : Task} (h : Inv config sh) (hs : TaskSound config sh (.call c) task) :
    Moves config (.call c) sh (dropCall config c sh task) := by
  simp only [dropCall]
  split
  · next fetch =>
    have hdrop := h.drop_fetch (.call c) fetch
    exact hdrop.trans (hdrop.inv.unlock _)
  · next subject i _ fetch => exact h.abandon hs.stage.1 fetch _
  · exact h.unlock _

theorem call_step {task task' : Task} {input : Input} (h : Inv config sh)
    (hs : TaskSound config sh (.call c) task)
    (hstep : callStep config c sh task input = some (sh', task')) :
    Moves config (.call c) sh sh' ∧ TaskSound config sh' (.call c) task' := by
  simp only [callStep] at hstep
  split at hstep
  · next context cancelled subject =>
    have hpresent := h.present subject.toList (.call c)
    have hentered : Entered { sh with ledger :=
        { sh.ledger with subjects := sh.ledger.subjects ++ subject.toList } } subject sh.now :=
      ⟨Nat.le_refl _, fun presented heq => List.mem_append_right _ (by simp [heq])⟩
    split at hstep
    · next error _ =>
      cases hstep
      exact ⟨hpresent.trans (hpresent.inv.refuse hentered error), trivial⟩
    · cases hstep
      exact ⟨hpresent, hentered⟩
  · cases hstep
    exact ⟨.refl h, hs⟩
  · next call admission =>
    split at hstep
    · cases hstep
      exact ⟨.refl h, hs⟩
    · split at hstep
      · next hsubject =>
        cases hstep
        exact ⟨.refl h, hs, hsubject, ⟨by simp [locked], by simp [passed]⟩, trivial⟩
      · next subject hsubject =>
        cases hstep
        exact ⟨.refl h, hs, hsubject, trivial⟩
    · cases hstep
      exact ⟨h.refuse hs _, trivial⟩
  · next call acquired basis cancelled =>
    split at hstep
    · cases hstep
      exact ⟨h.refuse hs.entered _, trivial⟩
    · cases hstep
      refine ⟨h.record ⟨hs.entered.presented, ?_⟩ _, ?_⟩
      · rintro _ _ ⟨⟩
        exact ⟨hs.sound, hs.basis⟩
      · have hsound := hs.sound
        simp only [AcquiredSound] at hsound
        split at hsound
        · rcases hsound with ⟨token, rfl, hissued⟩
          exact hissued.imp fun _ _ => trivial
        · rcases hsound with ⟨token, rfl, hissued⟩
          exact hissued.imp fun _ _ => trivial
  · next acquired =>
    split at hstep
    · next hevictable =>
      cases hstep
      have hage : evictionMinAge ≤ sh.now - acquired.token.acquired := of_decide_eq_true hevictable
      have hpos : 0 < evictionMinAge := by decide
      exact ⟨.refl h, hs, by omega⟩
    · cases hstep
      exact ⟨.refl h, trivial⟩
  · next acquired =>
    cases hstep
    exact ⟨h.reject acquired _, trivial⟩
  · cases hstep
  · cases hstep
  · cases hstep
  · cases hstep
    exact ⟨drop_call h hs, trivial⟩
  · exact service_step h hs hstep
  · exact exchange_step h hs hstep
  · cases hstep

theorem leave_loop {stage : DriverStage} {task : Task} (h : Inv config sh)
    (hs : DriverSound config sh stage) (hstep : leaveLoop sh stage = some (sh', task)) :
    Moves config .driver sh sh' ∧ TaskSound config sh' .driver task := by
  have hfree : ∀ sh : Shared, Holding sh .driver false false := fun _ => ⟨by simp, by simp⟩
  simp only [leaveLoop] at hstep
  split at hstep
  · cases hstep
  · cases hstep
  · cases hstep
  · cases hstep
  · next request fetch =>
    cases hstep
    have hdrop := h.drop_fetch .driver fetch
    refine ⟨hdrop.trans (hdrop.inv.unlock _), hfree _, ?_, trivial⟩
    by_cases hpermit : fetch.holdsPermit = true
    · rw [Shared.dropFetch, if_pos hpermit]
      exact hs.channel.move rfl rfl rfl rfl rfl rfl
    · rw [Shared.dropFetch, if_neg hpermit]
      exact hs.channel.move rfl rfl rfl rfl rfl rfl
  · next hleaving hclosing hcleared hgone _ =>
    cases hstep
    refine ⟨h.unlock _, hfree _, hs.channel.move rfl rfl rfl ?_ rfl ?_, trivial⟩
    · cases stage <;> first | rfl | simp_all
    · cases stage <;> first | rfl | simp_all

theorem driver_step {stage : DriverStage} {input : Input} {task : Task} (h : Inv config sh)
    (hs : DriverSound config sh stage) (hstep : driverStep config sh stage input = some (sh', task)) :
    Moves config .driver sh sh' ∧ TaskSound config sh' .driver task := by
  have hfree : ∀ sh : Shared, Holding sh .driver false false := fun _ => ⟨by simp, by simp⟩
  simp only [driverStep] at hstep
  split at hstep
  · split at hstep
    · cases hstep
    · next request queue hqueue =>
      cases hstep
      have hload : load queue (.locking request) = load sh.queue .idle := by
        simp [load, hqueue, DriverStage.handling]
      refine ⟨⟨{ h with }, { Guarantee.refl .driver sh with channel := by simp }⟩, hfree _, ?_,
        trivial⟩
      exact ⟨hs.channel.shut, hload ▸ hs.channel.room, hload ▸ hs.channel.pending,
        hload ▸ hs.channel.free, by simp [isUnset]⟩
  · split at hstep
    · next hfree =>
      cases hstep
      exact ⟨h.lock hfree .driver, ⟨fun _ => rfl, by simp [passedStage]⟩,
        hs.channel.move rfl rfl rfl rfl rfl rfl, trivial⟩
    · cases hstep
  · split at hstep
    · cases hstep
      exact ⟨.refl h, hfree _, hs.channel.move rfl rfl rfl rfl rfl rfl, trivial⟩
    · cases hstep
  · cases hstep
    exact ⟨.refl h, hs.holding, hs.channel.move rfl rfl rfl rfl rfl rfl, Nat.le_refl _⟩
  · next request now =>
    split at hstep
    · cases hstep
      exact ⟨h.unlock _, hfree _, hs.channel.move rfl rfl rfl rfl rfl rfl, trivial⟩
    · next hopen =>
      cases hstep
      rw [not_or, Bool.not_eq_true, Option.isSome_eq_false_iff, Option.isNone_iff_eq_none] at hopen
      have hpassed := h.passed hs.stage hopen.2
      exact ⟨.refl h, ⟨hs.holding.holder, fun _ => ⟨rfl, hpassed⟩⟩,
        hs.channel.move rfl rfl rfl rfl rfl rfl, trivial⟩
  · split at hstep
    · cases hstep
      exact ⟨.refl h, hs.holding, hs.channel.move rfl rfl rfl rfl rfl rfl, trivial⟩
    · cases hstep
      exact ⟨h.unlock _, hfree _, hs.channel.move rfl rfl rfl rfl rfl rfl, trivial⟩
  · next token =>
    cases hstep
    have hservice : IssuedService sh.ledger token := Issued.imp (fun _ hp => hp.2) hs.stage
    have hstore := h.store (hs.holding.passed rfl).2 hservice .driver
    refine ⟨hstore, ?_⟩
    by_cases hreusable : token.isReusable sh.now = true
    · rw [storeServiceToken, if_pos hreusable]
      exact ⟨⟨hs.holding.holder, by simp [passedStage]⟩,
        hs.channel.move rfl rfl rfl rfl rfl rfl, trivial⟩
    · rw [storeServiceToken, if_neg hreusable]
      exact ⟨⟨hs.holding.holder, by simp [passedStage]⟩,
        hs.channel.move rfl rfl rfl rfl rfl rfl, trivial⟩
  · cases hstep
    exact ⟨.refl h, hs.holding, hs.channel.move rfl rfl rfl rfl rfl rfl, trivial⟩
  · next retry =>
    cases hstep
    have hdefer := h.defer retry .driver
    exact ⟨hdefer.trans (hdefer.inv.unlock _), hfree _, hs.channel.move rfl rfl rfl rfl rfl rfl,
      trivial⟩
  · cases hstep
    exact ⟨.refl h, hs.holding, hs.channel.move rfl rfl rfl rfl rfl rfl, trivial⟩
  · next error time =>
    cases hstep
    have hremember := h.remember (hs.holding.holder rfl) (hs.holding.passed rfl).2 error time
    exact ⟨hremember.trans (hremember.inv.unlock _), hfree _,
      hs.channel.move rfl rfl rfl rfl rfl rfl, trivial⟩
  · cases hstep
    have hroom : sh.queue.length + 1 ≤ 1 := hs.channel.room
    have hload : load sh.queue .idle = 0 := by
      simp only [load, DriverStage.handling, Bool.false_eq_true, if_false]
      omega
    refine ⟨⟨{ h with }, { Guarantee.refl .driver sh with channel := by simp }⟩, hfree _, ?_,
      trivial⟩
    exact ⟨hs.channel.shut, by simp [hload], by simp, fun _ _ => hload, by simp [isUnset]⟩
  · next handling =>
    cases hstep
    refine ⟨⟨{ h with }, { Guarantee.refl .driver sh with channel := by simp }⟩, hfree _, ?_,
      trivial⟩
    exact ⟨rfl, hs.channel.room, hs.channel.pending, by simp, by simp [isUnset]⟩
  · next handling =>
    cases hstep
    refine ⟨⟨{ h with }, { Guarantee.refl .driver sh with channel := by simp }⟩, hfree _, ?_,
      trivial⟩
    have hroom : load sh.queue (.closing handling) ≤ 1 := hs.channel.room
    refine ⟨hs.channel.shut, ?_, by simp, ?_, by simp⟩
    · exact Nat.le_trans (Nat.add_le_add_left (Nat.zero_le _) _) hroom
    · intro hopen
      rw [hs.channel.shut] at hopen
      cases hopen
  · cases hstep
    refine ⟨⟨{ h with }, { Guarantee.refl .driver sh with channel := by simp }⟩, hfree _, ?_,
      trivial⟩
    have hunset := hs.channel.unset rfl
    exact ⟨hs.channel.shut, by simp [load, DriverStage.handling], by simp [hunset],
      fun _ _ => rfl, fun _ => hunset⟩
  · exact leave_loop h hs hstep
  · next request fetch _ =>
    split at hstep
    · next result _ =>
      split at hstep
      · next token hsettle =>
        cases hstep
        exact ⟨.refl h, hs.holding, hs.channel.move rfl rfl rfl rfl rfl rfl,
          hs.stage.settled hsettle⟩
      · split at hstep
        · cases hstep
          exact ⟨h.unlock _, hfree _, hs.channel.move rfl rfl rfl rfl rfl rfl, trivial⟩
        · cases hstep
          exact ⟨.refl h, hs.holding, hs.channel.move rfl rfl rfl rfl rfl rfl, trivial⟩
    · rcases Option.map_eq_some_iff.mp hstep with ⟨⟨sent, fetch'⟩, hfetch, heq⟩
      cases heq
      have hpassed := (hs.holding.passed rfl).2
      rcases fetch_step h (by simp) (fun _ => hpassed) hs.stage hfetch with ⟨hmoves, hsound, hapart⟩
      refine ⟨hmoves, hs.holding.apart hapart, ?_, hsound⟩
      exact hs.channel.move hapart.closed hapart.queue (by rw [hapart.cached]) rfl rfl rfl
  · cases hstep

/-- A change that no task owes to another may stand for a move of any of them. -/
theorem TaskSound.settles {task : Task} (hg : ∀ other, Guarantee other sh sh')
    (h : TaskSound config sh r task) : TaskSound config sh' r task := by
  cases r with
  | driver => exact h.stable (hg (.call 0)) (by simp)
  | call c => exact h.stable (hg .driver) (by simp)

theorem env_step {x : Weather} (h : Inv config sh)
    (hstep : (credentials config).env sh x = some sh') :
    Inv config sh' ∧ ∀ r task, TaskSound config sh r task → TaskSound config sh' r task := by
  cases x with
  | tick elapsed =>
    cases hstep
    have hlater : sh.now ≤ sh.now + elapsed := Nat.le_add_right _ _
    refine ⟨{ h with issued := ?_, remembered := ?_ }, ?_⟩
    · intro i issue hissue
      rcases h.issued i issue hissue with ⟨hid, hvalid⟩
      exact ⟨hid, { hvalid with past := Nat.le_trans hvalid.past hlater }⟩
    · intro time hmem
      rcases h.remembered time hmem with hpast | hopen
      · exact .inl (Nat.le_trans hpast hlater)
      · exact .inr hopen
    · have hg : ∀ other, Guarantee other sh { sh with now := sh.now + elapsed } :=
        fun other => { Guarantee.refl other sh with now := hlater }
      exact fun r task htask => htask.settles hg
  | evict key =>
    cases hstep
    refine ⟨{ h with exchanged := ?_ }, ?_⟩
    · intro key' token htoken
      by_cases hkey : key' = key
      · subst hkey
        simp at htoken
      · simp only [Function.update_of_ne hkey] at htoken
        exact h.exchanged key' token htoken
    · have hg : ∀ other, Guarantee other sh
          { sh with exchanged := Function.update sh.exchanged key none } :=
        fun other => { Guarantee.refl other sh with }
      exact fun r task htask => htask.settles hg

def proof (config : Config) : Proof (credentials config) where
  inv := Inv config
  knows r sh task := TaskSound config sh r task
  guarantee := Guarantee
  act_sound := by
    intro r sh task input sh' task' h hs hact
    cases r with
    | call c =>
      rcases call_step h hs hact with ⟨hmoves, htask⟩
      exact ⟨hmoves.inv, htask, hmoves.guarantee⟩
    | driver =>
      cases task with
      | driver stage =>
        rcases driver_step h hs hact with ⟨hmoves, htask⟩
        exact ⟨hmoves.inv, htask, hmoves.guarantee⟩
      | _ => cases hact
  act_stable hne hg hs := TaskSound.stable hg hne hs
  env_sound := env_step

theorem start_holds (config : Config) : (proof config).Holds (start config) := by
  constructor
  · constructor <;> simp [start, Shared.initial, Remembered]
  · intro r
    cases r with
    | call c => exact trivial
    | driver =>
      refine ⟨⟨by simp [lockedStage], by simp [passedStage]⟩, ?_, trivial⟩
      constructor <;> simp [start, Shared.initial, load, DriverStage.handling, isShut, isUnset]

theorem body_subject {assertion assertion' subject subject' : String}
    (h : config.body assertion (.tokenExchange subject) =
      config.body assertion' (.tokenExchange subject')) : subject = subject' :=
  serialize_pairs_second h

/-- A returned token and the exchange with the provider behind it. -/
structure Justified (config : Config) (L : Ledger) (outcome : Outcome) (acquired : Acquired)
    (basis : Basis) : Prop where
  /-- It was reusable when the call read its clock, or this very call fetched it. -/
  basis : BasisSound L outcome.call outcome.began outcome.time acquired.token basis
  /-- Without a lifetime it serves the call that fetched it only. -/
  requestOnly : ∀ issue ∈ L.issued, issue.token = acquired.token →
    issue.response.expiresIn = none → issue.requester = .call outcome.call
  service : outcome.subject = none → IssuedService L acquired.token
  exchanged : ∀ subject, outcome.subject = some subject → ∃ issue ∈ L.issued,
    issue.token = acquired.token ∧
    (∃ assertion, issue.request = config.body assertion (.tokenExchange subject)) ∧
    ∀ assertion other, issue.request = config.body assertion (.tokenExchange other) →
      other = subject

def inFlight : Task → Bool
  | .service _ (.fetching _ _ (.requesting _ _)) => true
  | .driver (.fetching _ (.requesting _ _)) => true
  | _ => false

def usedToken : Task → Option Token
  | .dispatched acquired => some acquired.token
  | .rejecting acquired => some acquired.token
  | _ => none

/-- What a cache held stays, unless it is the very token that was used and old enough. -/
def Keeps (used : Token) (now : ℕ) (before after : Option Token) : Prop :=
  ∀ token, before = some token →
    after = some token ∨ (token = used ∧ used.acquired + evictionMinAge ≤ now)

structure Sound (config : Config) (w : World Requester Shared Task) : Prop where
  answers : ∀ outcome ∈ w.shared.ledger.outcomes, ∀ acquired basis,
    outcome.result = .ok (acquired, basis) →
      Justified config w.shared.ledger outcome acquired basis
  single : ∀ r r', inFlight (w.tasks r) = true → inFlight (w.tasks r') = true → r = r'
  refreshes : ∃ stage, w.tasks .driver = .driver stage ∧ load w.shared.queue stage ≤ 1 ∧
    (w.shared.cached.refreshPending = true → load w.shared.queue stage = 1)
  spaced : w.shared.ledger.marks.Pairwise Spaced
  evictions : ∀ c used input w', usedToken (w.tasks (.call c)) = some used →
    (credentials config).step w (.act (.call c) input) = some w' →
      Keeps used w.shared.now w.shared.cached.token w'.shared.cached.token ∧
      ∀ key, Keeps used w.shared.now (w.shared.exchanged key) (w'.shared.exchanged key)

theorem Inv.justified (h : Inv config sh)
    (injective : Set.InjOn config.sha256
      (Set.image asBytes {subject | subject ∈ sh.ledger.subjects}))
    {outcome : Outcome} (hmem : outcome ∈ sh.ledger.outcomes) {acquired : Acquired} {basis : Basis}
    (hresult : outcome.result = .ok (acquired, basis)) :
    Justified config sh.ledger outcome acquired basis := by
  have hsound := h.outcomes outcome hmem
  rcases hsound.answer acquired basis hresult with ⟨hacquired, hbasis⟩
  refine ⟨hbasis, ?_, ?_, ?_⟩
  · intro issue hissue htoken hnone
    cases basis with
    | reused now =>
      rcases hbasis.2.2 with ⟨cutoff, hcutoff, -⟩
      rcases (h.issued_valid hissue).cutoff with ⟨read, hread⟩
      rw [hnone, htoken, hcutoff] at hread
      cases hread
    | fetched =>
      rcases hbasis with ⟨own, hown, htoken', hrequester⟩
      rw [h.issue_unique hissue hown (by rw [htoken, htoken'])]
      exact hrequester
  · intro hsubject
    rw [hsubject] at hacquired
    rcases hacquired with ⟨token, rfl, hservice⟩
    exact hservice
  · intro subject hsubject
    rw [hsubject] at hacquired
    rcases hacquired with ⟨token, rfl, issue, hissue, htoken, exchanged, hgrant, hkey⟩
    have hvalid := h.issued_valid hissue
    have hsame : exchanged = subject := as_bytes_injective (injective
      ⟨exchanged, hvalid.subject exchanged hgrant, rfl⟩
      ⟨subject, hsound.subject subject hsubject, rfl⟩ hkey)
    subst hsame
    rcases hvalid.request with ⟨assertion, hrequest⟩
    rw [hgrant] at hrequest
    refine ⟨issue, hissue, htoken, ⟨assertion, hrequest⟩, ?_⟩
    intro assertion' other hother
    exact body_subject (hother.symm.trans hrequest)

/-- In flight means holding the refresh lock. -/
theorem in_flight_holder {task : Task} (hs : TaskSound config sh r task)
    (hflight : inFlight task = true) : sh.refresh = some r := by
  cases r with
  | call c =>
    cases task with
    | service call stage =>
      cases stage with
      | fetching deadline shortened fetch => exact hs.holding.holder rfl
      | _ => cases hflight
    | driver stage => cases hs
    | _ => cases hflight
  | driver =>
    cases task with
    | driver stage =>
      cases stage with
      | fetching request fetch => exact hs.holding.holder rfl
      | _ => cases hflight
    | _ => cases hs

theorem Inv.evicts (h : Inv config sh) {acquired : Acquired}
    (hissued : Issued sh.ledger (fun _ => True) acquired.token)
    (hage : acquired.token.acquired + evictionMinAge ≤ sh.now) :
    Keeps acquired.token sh.now sh.cached.token (rejectAcquired sh acquired).cached.token ∧
    ∀ key, Keeps acquired.token sh.now (sh.exchanged key)
      ((rejectAcquired sh acquired).exchanged key) := by
  cases acquired with
  | service used =>
    by_cases hholds : holds sh.cached.token used = true
    · refine ⟨?_, ?_⟩
      · intro token htoken
        have hid : token.id = used.id := by simpa [holds, htoken] using hholds
        exact .inr ⟨h.token_unique (h.cached token htoken).1 hissued hid, hage⟩
      · rw [rejectAcquired, rejectServiceToken, if_pos hholds]
        exact fun key token htoken => .inl htoken
    · rw [rejectAcquired, rejectServiceToken, if_neg hholds]
      exact ⟨fun token htoken => .inl htoken, fun key token htoken => .inl htoken⟩
  | exchanged key used =>
    by_cases hholds : holds (sh.exchanged key) used = true
    · rw [rejectAcquired, forgetExchanged, if_pos hholds]
      refine ⟨fun token htoken => .inl htoken, fun key' token htoken => ?_⟩
      by_cases hkey : key' = key
      · subst hkey
        have hid : token.id = used.id := by simpa [holds, htoken] using hholds
        exact .inr ⟨h.token_unique (h.exchanged key' token htoken) hissued hid, hage⟩
      · exact .inl (by simpa [hkey] using htoken)
    · rw [rejectAcquired, forgetExchanged, if_neg hholds]
      exact ⟨fun token htoken => .inl htoken, fun key token htoken => .inl htoken⟩

theorem Inv.call_evicts {task task' : Task} {used : Token} {input : Input} (h : Inv config sh)
    (hs : TaskSound config sh (.call c) task) (hused : usedToken task = some used)
    (hstep : callStep config c sh task input = some (sh', task')) :
    Keeps used sh.now sh.cached.token sh'.cached.token ∧
    ∀ key, Keeps used sh.now (sh.exchanged key) (sh'.exchanged key) := by
  have hsame : ∀ before : Option Token, Keeps used sh.now before before :=
    fun _ _ hbefore => .inl hbefore
  cases task with
  | dispatched acquired =>
    cases input with
    | unauthorized =>
      simp only [callStep] at hstep
      split at hstep
      · cases hstep
        exact ⟨hsame _, fun _ => hsame _⟩
      · cases hstep
        exact ⟨hsame _, fun _ => hsame _⟩
    | drop =>
      cases hstep
      exact ⟨hsame _, fun _ => hsame _⟩
    | _ => cases hstep
  | rejecting acquired =>
    cases hused
    cases input with
    | next =>
      cases hstep
      exact h.evicts hs.1 hs.2
    | drop =>
      cases hstep
      exact ⟨hsame _, fun _ => hsame _⟩
    | _ => cases hstep
  | _ => cases hused

/-- Every interleaving of calls, rejections, the driver and its shutdown, provider answers and
movements of the clock. -/
theorem tokens_sound {w : World Requester Shared Task}
    (h : ((credentials config).system (start config)).Reachable w)
    (injective : Set.InjOn config.sha256
      (Set.image asBytes {subject | subject ∈ w.shared.ledger.subjects})) : Sound config w := by
  have hw := (proof config).reachable_holds (start_holds config) h
  have hinv : Inv config w.shared := hw.inv
  have hknows : ∀ r, TaskSound config w.shared r (w.tasks r) := hw.knows
  refine ⟨?_, ?_, ?_, hinv.spaced, ?_⟩
  · exact fun outcome hmem acquired basis hresult => hinv.justified injective hmem hresult
  · intro r r' hflight hflight'
    have hholder := in_flight_holder (hknows r) hflight
    rw [in_flight_holder (hknows r') hflight', Option.some.injEq] at hholder
    exact hholder.symm
  · have hdriver := hknows .driver
    cases htask : w.tasks .driver with
    | driver stage =>
      rw [htask] at hdriver
      exact ⟨stage, rfl, hdriver.channel.room, hdriver.channel.pending⟩
    | _ =>
      rw [htask] at hdriver
      cases hdriver
  · intro c used input w' hused hstep
    rcases Program.step_act hstep with ⟨shared, task, hact, rfl⟩
    exact hinv.call_evicts (hknows (.call c)) hused hact

def sampleService : Bytes :=
  asBytes "\x7b\"access_token\":\"a\",\"token_type\":\"Bearer\",\"expires_in\":3600\x7d"

def sampleExchange : Bytes :=
  asBytes ("\x7b\"access_token\":\"b\",\"token_type\":\"Bearer\",\"issued_token_type\":\"" ++
    tokenTypeAccessToken ++ "\"\x7d")

def sampleConfig : Config where
  clientId := "template"
  scopes := []
  audience := none
  providerConcurrency := 1
  admitted := by decide
  lastInstant := fromSecs (2 ^ 63 - 1)
  decode body :=
    if body = sampleService then some ⟨"a", "Bearer", some 3600, none⟩
    else if body = sampleExchange then some ⟨"b", "Bearer", none, some tokenTypeAccessToken⟩
    else none
  decodeError _ := none
  sha256 bytes :=
    if bytes = [115] then
      [4, 58, 113, 135, 116, 197, 114, 189, 138, 37, 173, 190, 177, 191, 205, 92, 2, 86, 174, 17,
      206, 207, 159, 156, 63, 146, 93, 14, 82, 190, 175, 137]
    else []

def sampleReply (body : Bytes) : Input := .replied (.ok ⟨⟨200, by decide⟩, none, body⟩)

def sampleFetch (body : Bytes) : List Input :=
  [.next, .next, .next, .signed (some "signature"), sampleReply body, .next, .sampled none, .next]

def sampleFirst : List Input :=
  [.authorize none false none, .next, .next, .next, .next, .next, .next, .sampled none, .next,
    .next, .next, .next, .sampled none, .next] ++ sampleFetch sampleService ++
    [.next, .next, .checked false]

def sampleSecond : List Input :=
  [.authorize none false none, .next, .next, .next, .next, .next, .next, .sampled none,
    .checked false]

def sampleThird : List Input :=
  [.authorize none false (some "s"), .next, .next, .next, .next, .next, .next, .next] ++
    sampleFetch sampleExchange ++ [.next, .checked false]

/-- Calls 0 and 1 ask for the service token, call 2 acts for the subject `s`. -/
def sampleTrace : List (Move Requester Input Weather) :=
  sampleFirst.map (.act (.call 0)) ++ sampleSecond.map (.act (.call 1)) ++
    sampleThird.map (.act (.call 2)) ++
    [.env (.tick evictionMinAge), .act (.call 1) .unauthorized, .act (.call 1) .next]

/-- How the calls ended, what the service cache holds and whose tokens were presented. -/
def observed (w : World Requester Shared Task) :
    List (Option Basis) × Option Token × List String :=
  (w.shared.ledger.outcomes.map fun outcome => outcome.result.toOption.map Prod.snd,
    w.shared.cached.token, w.shared.ledger.subjects)

theorem tokens_sound_sample :
    ∃ w, ((credentials sampleConfig).system (start sampleConfig)).run (start sampleConfig)
        sampleTrace = some w ∧
      observed w = ([some .fetched, some (.reused 0), some .fetched], none, ["s"]) ∧
      Sound sampleConfig w := by
  have hrun : (((credentials sampleConfig).system (start sampleConfig)).run (start sampleConfig)
      sampleTrace).map observed =
        some ([some .fetched, some (.reused 0), some .fetched], none, ["s"]) := by
    decide +kernel
  rcases Option.map_eq_some_iff.mp hrun with ⟨w, hw, hobserved⟩
  refine ⟨w, hw, hobserved, tokens_sound (System.reachable_of_run hw) ?_⟩
  have hsubjects : w.shared.ledger.subjects = ["s"] := congrArg (·.2.2) hobserved
  simp [hsubjects]

end OAuthAcquisition
