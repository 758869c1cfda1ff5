import Pgokf.Web.SignIn

/-! # Whom a cookie identifies

Each call that changes people, sessions or providers is a list of statements, and what a cookie can
do is read off them. -/

namespace Pgokf.Web.Auth

open Lib

inductive Statement where
  | insert (name : Text) (role : Role) (hash : Text) (display : Option Text)
  | provision (name : Text) (display : Option Text) (provider : Text)
  | refreshDisplay (name provider : Text) (display : Option Text)
  | setRole (name : Text) (role : Role)
  | setHash (name hash : Text)
  | removePerson (name : Text)
  | demotePeopleOf (provider : Text)
  | addSession (opening : Opening) (nonce : Text) (now catalogNow : Nat)
  | removeSession (nonce : Text)
  | removeAllFor (subject : Text)
  | removeProvider (provider : Text)
  | saveSettings (settings : ProviderSettings) (isNew : Bool)
  | removeSettings (id : Text)
  -- A sign-in sent to a provider: nothing is stored, the flow is sealed into a cookie.
  | start (flow : Flow)

variable (env : Env)

namespace Statement

def exec (s : State) : Statement → Except Text State
  | insert name role hash display => do
    let people ← s.people.insert name role hash display
    return { s with people }
  | provision name display provider =>
    .ok { s with people := (s.people.provision name .viewer display provider).1 }
  | refreshDisplay name provider display =>
    .ok { s with people := s.people.refreshDisplay name provider display }
  | setRole name role => s.setRole name role
  | setHash name hash => do
    let people ← s.people.setHash name hash
    return { s with people }
  | removePerson name => do
    let people ← s.people.remove name
    return { s with people }
  | demotePeopleOf provider => .ok (s.demotePeopleOf provider)
  | addSession opening nonce now catalogNow => s.openSession env opening nonce now catalogNow
  | removeSession nonce => .ok { s with sessions := s.sessions.remove nonce }
  | removeAllFor subject => .ok (s.endAllSessionsOf subject)
  | removeProvider provider => .ok (s.endSessionsOpenedByProvider provider)
  | saveSettings settings isNew => s.saveSettings settings isNew
  | removeSettings id => .ok (s.removeSettings id)
  | start _ => .ok s

def ends (row : SessionRow) : Statement → Bool
  | removeSession nonce => row.nonce == nonce
  | removeAllFor subject => row.subject == subject
  | removeProvider provider => row.provider == some provider
  | _ => false

def opens : Statement → Option SessionClaims
  | addSession opening nonce now _ => some (opening.claims env nonce now)
  | _ => none

end Statement

def Step (s : State) (a : Statement) (s' : State) : Prop := a.exec env s = .ok s'

inductive Call where
  | addUser (name : Text) (role : Role) (display : Option Text) (password hash : Text)
  | removeUser (name : Text)
  | setPassword (name password hash : Text)
  | setRole (name : Text) (role : Role)
  | loginSubmit (name password : Text) (throttled : Bool) (nonce : Text) (now catalogNow : Nat)
  | issueCookie (person : Principal) (nonce : Text) (now catalogNow : Nat)
  | admitPerson (person : Principal) (provider : OidcAuth)
  | authCallback (person : Principal) (groups : List Text) (provider : OidcAuth) (nonce : Text)
      (now catalogNow : Nat)
  | logout (cookie : Option Text) (now now' : Nat)
  | endAllSessionsOf (subject : Text)
  | saveProvider (settings : ProviderSettings)
  | removeProvider (id : Text)
  | startProvider (flow : Flow)

def Call.exec (s : State) : Call → Except Text State
  | addUser name role display password hash => s.addUser name role display password hash
  | removeUser name => s.removeUser name
  | setPassword name password hash => s.setPassword name password hash
  | setRole name role => s.setRole name role
  | loginSubmit name password throttled nonce now catalogNow =>
    s.loginSubmit env name password throttled nonce now catalogNow
  | issueCookie person nonce now catalogNow => s.issueCookie env person nonce now catalogNow
  | admitPerson person provider => do
    let admitted ← s.admitPerson person provider
    return admitted.1
  | authCallback person groups provider nonce now catalogNow =>
    s.authCallback env person groups provider nonce now catalogNow
  | logout cookie now now' => .ok (s.logout env cookie now now')
  | endAllSessionsOf subject => .ok (s.endAllSessionsOf subject)
  | saveProvider settings => s.saveProvider settings
  | removeProvider id => s.removeProvider id
  | startProvider _ => .ok s

/-! ### The statements of a call -/

def State.issueStatements (s : State) (person : Principal) (nonce : Text) (now catalogNow : Nat) :
    Option (List Statement) := do
  let record ← s.people.record person.subject
  let hash ← record.hash
  return [.addSession (.password person.subject hash) nonce now catalogNow]

/- An admission that is refused has no statement. -/
def State.admissionStatements (s : State) (person : Principal) (provider : OidcAuth) :
    Option (List Statement) := do
  let id ← provider.id
  match s.people.record person.subject with
  | none => return [.provision person.subject (State.admittedDisplay person) id]
  | some record =>
    return if record.provider = some id then
      [.refreshDisplay person.subject id (State.admittedDisplay person)] else []

/-- What a call asks of the catalog, in this order, where it is not refused before it asks anything. -/
def Call.statements (s : State) : Call → Option (List Statement)
  | addUser name role display password hash =>
    match State.validatedDisplay display with
    | .ok display =>
      if validSubject (trim name) && decide (State.passwordMin ≤ password.length) then
        some [.insert (trim name) role hash display]
      else none
    | .error _ => none
  | removeUser name => some [.removePerson name, .removeAllFor name]
  | setPassword name password hash =>
    if State.passwordMin ≤
      password.length then some [.setHash name hash, .removeAllFor name] else none
  | setRole name role => some [.setRole name role]
  | loginSubmit name password throttled nonce now catalogNow =>
    (s.verify env name password throttled).bind fun person =>
      s.issueStatements person nonce now catalogNow
  | issueCookie person nonce now catalogNow => s.issueStatements person nonce now catalogNow
  | admitPerson person provider => s.admissionStatements person provider
  | authCallback person groups provider nonce now catalogNow =>
    (s.admissionStatements person provider).bind fun admission =>
      if admission.isEmpty then none
      else some (admission ++ [.addSession (.provider person groups provider) nonce now catalogNow])
  | logout cookie now now' =>
    let mode := (env.sessions.presentedMode cookie now).getD .users
    some ((env.sessions.openClaims cookie mode now').toList.map fun claims =>
      .removeSession claims.nonce)
  | endAllSessionsOf subject => some [.removeAllFor subject]
  | saveProvider settings =>
    let before := s.stored settings.id
    let changed := before.any fun before => changedProvider before settings
    some (.saveSettings settings before.isNone ::
      ((if !settings.enabled || changed then [.removeProvider settings.id] else []) ++
        if before.isNone || changed then [.demotePeopleOf settings.id] else []))
  | removeProvider id => (s.stored id).map fun _ => [.removeSettings id, .removeProvider id]
  | startProvider flow => some [.start flow]

/-- The nonce that a call draws for the session it opens. -/
def Call.nonce : Call → Option Text
  | loginSubmit _ _ _ nonce _ _ | issueCookie _ nonce _ _ | authCallback _ _ _ nonce _ _ =>
    some nonce
  | _ => none

/-- One call with the statements that ran of it. It may break off between two of them. -/
inductive CallStep : State → Call × List Statement → State → Prop
  | done {s s' : State} {c : Call} {ls : List Statement} (hcall : c.exec env s = .ok s')
    (hls : c.statements env s = some ls) : CallStep s (c, ls) s'
  | brokenOff {s s' : State} {c : Call} {ls rest : List Statement}
    (hls : c.statements env s = some (ls ++ rest)) (hrun : Run (Step env) s ls s') :
    CallStep s (c, ls) s'

def history (entries : List (Call × List Statement)) : List Statement := entries.flatMap Prod.snd

section Calls

variable {env} {s s' : State} {ls rest : List Statement} {c : Call}
  {entries : List (Call × List Statement)}

theorem foldlM_exec_one (a : Statement) : [a].foldlM (Statement.exec env) s = a.exec env s := by
  rw [List.foldlM_cons]
  exact bind_pure _

theorem toOption_exec (a : Statement) : (a.exec env s).toOption =
    (some [a]).bind fun ls => (ls.foldlM (Statement.exec env) s).toOption := by
  rw [Option.bind_some, foldlM_exec_one]

theorem issueCookie_eq (person : Principal) (nonce : Text) (now catalogNow : Nat) :
    (s.issueCookie env person nonce now catalogNow).toOption =
      (s.issueStatements person nonce now catalogNow).bind fun ls =>
        (ls.foldlM (Statement.exec env) s).toOption := by
  rw [State.issueCookie, State.issueStatements]
  cases s.people.record person.subject with
  | none => rfl
  | some record =>
    obtain ⟨role, hash, display, provider⟩ := record
    cases hash with
    | none => rfl
    | some hash => exact toOption_exec (.addSession (.password person.subject hash) nonce now catalogNow)

variable (env) in
/-- An admission fails, or is refused and does nothing, or is one statement. -/
theorem admitPerson_cases (s : State) (person : Principal) (provider : OidcAuth) :
    (∃ e, s.admitPerson person provider = .error e ∧ s.admissionStatements person provider = none) ∨
    (∃ why, s.admitPerson person provider = .ok (s, .refused why) ∧
      s.admissionStatements person provider = some []) ∨
    ∃ a s' admission, s.admitPerson person provider = .ok (s', admission) ∧
      (∀ why, admission ≠ .refused why) ∧ s.admissionStatements person provider = some [a] ∧
      a.exec env s = .ok s' := by
  rw [State.admitPerson, State.admissionStatements]
  cases provider.id with
  | none => exact .inl ⟨_, rfl, rfl⟩
  | some id =>
    refine .inr ?_
    cases hrecord : s.people.record person.subject with
    | none =>
      refine .inr ⟨_, _, .new, ?_, by simp, rfl, rfl⟩
      simp [orRefuse, People.provision, hrecord, pure, Except.pure, bind, Except.bind]
    | some record =>
      obtain ⟨role, hash, display, owner⟩ := record
      cases owner with
      | none => exact .inl ⟨_, rfl, rfl⟩
      | some own =>
        by_cases howner : own = id
        · subst howner
          refine .inr ⟨.refreshDisplay person.subject own (State.admittedDisplay person), _,
            .known, ?_, by simp, by simp, rfl⟩
          simp [orRefuse, State.settle, pure, Except.pure, bind, Except.bind]
        · have hsettle : s.settle person.subject ⟨role, hash, display, some own⟩ id
              (State.admittedDisplay person) = (s, .refused _) := if_neg howner
          exact .inl ⟨_, congrArg Except.ok hsettle, by simp [howner]⟩

theorem authCallback_eq (person : Principal) (groups : List Text) (provider : OidcAuth)
    (nonce : Text) (now catalogNow : Nat) :
    ((Call.authCallback person groups provider nonce now catalogNow).exec env s).toOption =
      ((Call.authCallback person groups provider nonce now catalogNow).statements env s).bind
        fun ls => (ls.foldlM (Statement.exec env) s).toOption := by
  rw [Call.exec, State.authCallback, Call.statements]
  obtain ⟨e, hperson, hnone⟩ | ⟨why, hperson, hnil⟩
    | ⟨a, s', admission, hperson, hin, hone, hexec⟩ :=
    admitPerson_cases env s person provider
  · rw [hperson, hnone]
    rfl
  · rw [hperson, hnil]
    rfl
  · rw [hperson, hone]
    have hrun : [a, .addSession (.provider person groups provider) nonce now catalogNow].foldlM
        (Statement.exec env) s =
          s'.openSession env (.provider person groups provider) nonce now catalogNow := by
      rw [List.foldlM_cons, hexec]
      exact foldlM_exec_one _
    refine Eq.trans ?_ (congrArg Except.toOption hrun.symm)
    cases admission with
    | refused why => exact absurd rfl (hin why)
    | new | known => rfl

variable (env) in
/-- A call is its statements, one after the other. -/
theorem Call.exec_eq (c : Call) (s : State) : (c.exec env s).toOption =
    (c.statements env s).bind fun ls => (ls.foldlM (Statement.exec env) s).toOption := by
  cases c with
  | addUser name role display password hash =>
    rw [Call.exec, State.addUser, Call.statements]
    cases State.validatedDisplay display with
    | error => cases validSubject (trim name) <;> rfl
    | ok display =>
      rw [State.validatedPassword]
      cases validSubject (trim name) with
      | false => rfl
      | true =>
        cases decide (State.passwordMin ≤ password.length) with
        | false => rfl
        | true => exact toOption_exec (.insert (trim name) role hash display)
  | removeUser name =>
    rw [Call.exec, State.removeUser, Call.statements, Option.bind_some, List.foldlM_cons,
      Statement.exec]
    cases s.people.remove name <;> rfl
  | setPassword name password hash =>
    rw [Call.exec, State.setPassword, Call.statements, State.validatedPassword]
    by_cases hlong : State.passwordMin ≤ password.length
    · rw [if_pos hlong, decide_eq_true hlong, Option.bind_some, List.foldlM_cons, Statement.exec]
      cases s.people.setHash name hash <;> rfl
    · rw [if_neg hlong, decide_eq_false hlong]
      rfl
  | setRole name role => exact toOption_exec (.setRole name role)
  | endAllSessionsOf subject => exact toOption_exec (.removeAllFor subject)
  | loginSubmit name password throttled nonce now catalogNow =>
    rw [Call.exec, State.loginSubmit, Call.statements]
    cases s.verify env name password throttled with
    | none => rfl
    | some person => exact issueCookie_eq person nonce now catalogNow
  | issueCookie person nonce now catalogNow => exact issueCookie_eq person nonce now catalogNow
  | admitPerson person provider =>
    rw [Call.exec, Call.statements]
    obtain ⟨e, hperson, hnone⟩ | ⟨why, hperson, hnil⟩
      | ⟨a, s', admission, hperson, -, hone, hexec⟩ :=
      admitPerson_cases env s person provider
    · rw [hperson, hnone]
      rfl
    · rw [hperson, hnil]
      rfl
    · rw [hperson, hone, Option.bind_some, foldlM_exec_one, hexec]
      rfl
  | authCallback person groups provider nonce now catalogNow =>
    exact authCallback_eq person groups provider nonce now catalogNow
  | logout cookie now now' =>
    rw [Call.exec, State.logout, State.endSessionFrom, Call.statements]
    cases env.sessions.openClaims cookie _ now' <;> rfl
  | saveProvider settings =>
    rw [Call.exec, State.saveProvider, Call.statements]
    dsimp only
    rw [Option.bind_some, List.foldlM_cons, Statement.exec]
    cases s.saveSettings settings (s.stored settings.id).isNone with
    | error => rfl
    | ok saved => split <;> split <;> rfl
  | removeProvider id =>
    rw [Call.exec, State.removeProvider, Call.statements]
    cases s.stored id <;> rfl
  | startProvider flow => rfl

theorem CallStep.run (h : CallStep env s (c, ls) s') : Run (Step env) s ls s' := by
  cases h with
  | done hcall hls =>
    have heq := Call.exec_eq env c s
    rw [hcall, hls, Option.bind_some] at heq
    cases hfold : ls.foldlM (Statement.exec env) s with
    | error e =>
      rw [hfold] at heq
      cases heq
    | ok t =>
      rw [hfold] at heq
      obtain rfl : s' = t := Option.some.inj heq
      exact run_of_foldlM hfold
  | brokenOff _ hrun => exact hrun

theorem CallStep.statements (h : CallStep env s (c, ls) s') :
    ∃ rest, c.statements env s = some (ls ++ rest) := by
  cases h with
  | done _ hls => exact ⟨[], by simpa using hls⟩
  | brokenOff hls _ => exact ⟨_, hls⟩

/-- The nonces of the sessions that statements open. -/
def opened (env : Env) (ls : List Statement) : List Text :=
  (ls.filterMap (Statement.opens env)).map SessionClaims.nonce

variable {person : Principal} {nonce : Text} {now catalogNow : Nat}

end Calls

/-! ### What the statements keep -/

section Statements

variable {env} {s s' : State} {ls : List Statement} {a : Statement} {opening : Opening}
  {nonce : Text}
  {now : Nat} {cookie : Option Text} {mode : Mode} {m : Moment} {claims : SessionClaims}

theorem session_step {row : SessionRow} (h : Step env s a s') (hrow : row ∈ s'.sessions) :
    (row ∈ s.sessions ∧ a.ends row = false) ∨
      ∃ opening nonce now catalogNow, a = .addSession opening nonce now catalogNow ∧
        row = (opening.claims env nonce now).row := by
  cases a with
  | addSession opening nonce now catalogNow =>
    obtain ⟨sessions, hadd, h⟩ := bind_eq_ok.mp h
    obtain rfl := pure_eq_ok.mp h
    rcases SessionTable.mem_of_add hadd row hrow with hnew | hold
    · exact .inr ⟨opening, nonce, now, catalogNow, rfl, hnew⟩
    · exact .inl ⟨hold, rfl⟩
  | removeSession | removeAllFor | removeProvider =>
    obtain rfl := Except.ok.inj h
    obtain ⟨hold, hkept⟩ := List.mem_filter.mp hrow
    exact .inl ⟨hold, by simpa [Statement.ends] using hkept⟩
  | insert | setRole | setHash | removePerson | saveSettings =>
    obtain ⟨_, -, h⟩ := bind_eq_ok.mp h
    obtain rfl := pure_eq_ok.mp h
    exact .inl ⟨hrow, rfl⟩
  | provision | refreshDisplay | demotePeopleOf | removeSettings | start =>
    obtain rfl := Except.ok.inj h
    exact .inl ⟨hrow, rfl⟩

variable (env) in
/-- The session was opened in the course of the statements, and none since has ended it. -/
def Standing (ls : List Statement) (opening : Opening) (nonce : Text) (now : Nat) : Prop :=
  ∃ before after catalogNow, ls = before ++ .addSession opening nonce now catalogNow :: after ∧
    ∀ a ∈ after, a.ends (opening.claims env nonce now).row = false

theorem Standing.more (h : Standing env ls opening nonce now)
    (ha : a.ends (opening.claims env nonce now).row = false) :
    Standing env (ls ++ [a]) opening nonce now := by
  obtain ⟨before, after, catalogNow, rfl, hafter⟩ := h
  refine ⟨before, after ++ [a], catalogNow, by simp, ?_⟩
  intro b hb
  rcases List.mem_append.mp hb with hb | hb
  · exact hafter b hb
  · rw [List.mem_singleton.mp hb]
    exact ha

theorem Standing.opens (h : Standing env ls opening nonce now) :
    opening.claims env nonce now ∈ ls.filterMap (Statement.opens env) := by
  obtain ⟨before, after, catalogNow, rfl, -⟩ := h
  exact List.mem_filterMap.mpr ⟨_, List.mem_append_right _ List.mem_cons_self, rfl⟩

theorem standing_run (h : Run (Step env) .empty ls s) : ∀ row ∈ s.sessions, ∃ opening nonce now,
    row = (opening.claims env nonce now).row ∧ Standing env ls opening nonce now := by
  refine h.history_invariant (P := fun ls s => ∀ row ∈ s.sessions, ∃ opening nonce now,
    row = (opening.claims env nonce now).row ∧ Standing env ls opening nonce now) ?_ ?_
  · intro row hrow
    cases hrow
  · intro ls s a s' ih hstep row hrow
    rcases session_step hstep hrow with ⟨hold, hends⟩ | ⟨opening, nonce, now, catalogNow, rfl, hnew⟩
    · obtain ⟨opening, nonce, now, rfl, hstands⟩ := ih row hold
      exact ⟨opening, nonce, now, rfl, hstands.more hends⟩
    · exact ⟨opening, nonce, now, hnew, ls, [], catalogNow, rfl, by simp⟩

variable (env) in
def FreshNonces (ls : List Statement) : Prop :=
  ((ls.filterMap (Statement.opens env)).map SessionClaims.nonce).Nodup

variable {person : Principal}

variable {recent : Text → Option OidcAuth}

end Statements

def sampleProvider : OidcAuth := ⟨some "okta", .oidc, [], [], ⟨[], .viewer⟩⟩

def passwordClaims : SessionClaims :=
  ⟨"ann", 150, "n1", "hash", none, [], none, Mode.users.id⟩

def providerClaims : SessionClaims :=
  ⟨"bob", 150, "n2", "okta\noidc\n\n", some "Bob", [], some "okta", Mode.oidc.id⟩

def sampleEnv : Env where
  sessions := ⟨50, fun t =>
    if t = "c1" then some (.session passwordClaims)
    else if t = "c2" then some (.session providerClaims) else none⟩
  fingerprint := id
  digest := id
  verifies := fun hash password => hash == password

def sampleStatements : List Statement :=
  [.insert "ann" .editor "hash" none,
    .addSession (.password "ann" "hash") "n1" 100 100000000,
    .provision "bob" (some "Bob") "okta",
    .addSession (.provider ⟨"bob", "Bob", .viewer⟩ [] sampleProvider) "n2" 100
      100000000,
    .setRole "bob" .approver]

def sampleMoment : Moment := ⟨120, 120, 120000000⟩

/-- A session that a statement has ended is never read again, whatever runs after it and whatever is
presented. -/
theorem ended_session_unread {env : Env} {s : State} {ls₁ ls₂ : List Statement} {a : Statement}
    {claims : SessionClaims} (hrun : Run (Step env) .empty (ls₁ ++ a :: ls₂) s)
    (hnonces : FreshNonces env (ls₁ ++ a :: ls₂))
    (hopened : claims ∈ ls₁.filterMap (Statement.opens env))
    (hends : a.ends claims.row = true) (cookie : Option Text) (mode : Mode) (m : Moment) :
    env.sessions.readSession s.sessions cookie mode m ≠ some claims := by
  obtain ⟨t, hbefore, hrest⟩ := Run.append_iff.mp hrun
  obtain ⟨u, hstep, hafter⟩ := Run.cons_iff.mp hrest
  rw [FreshNonces, List.filterMap_append, List.map_append] at hnonces
  obtain ⟨hnodup, -, hapart⟩ := List.nodup_append.mp hnonces
  have hfresh : ∀ c ∈ (a :: ls₂).filterMap (Statement.opens env), c.nonce ≠ claims.nonce :=
    fun c hc heq =>
    hapart _ (List.mem_map_of_mem hopened) _ (List.mem_map_of_mem hc) heq.symm
  -- Right after the statement no row has the nonce, and none of those that follow opens one with it.
  have hended : ∀ row ∈ u.sessions, row.nonce ≠ claims.nonce := by
    intro row hrow heq
    rcases session_step hstep hrow with ⟨hold, hkept⟩ | ⟨opening, nonce, now, catalogNow, rfl, rfl⟩
    · obtain ⟨opening, nonce, now, rfl, hstands⟩ := standing_run hbefore row hold
      obtain rfl := List.inj_on_of_nodup_map hnodup hstands.opens hopened heq
      exact Bool.false_ne_true (hkept.symm.trans hends)
    · exact hfresh _ List.mem_cons_self heq
  have hgone : ∀ row ∈ s.sessions, row.nonce ≠ claims.nonce := by
    refine hafter.history_invariant
      (P := fun ls s => (∀ c ∈ (a :: ls).filterMap (Statement.opens env),
      c.nonce ≠ claims.nonce) → ∀ row ∈ s.sessions, row.nonce ≠ claims.nonce)
        (fun _ => hended) ?_ hfresh
    intro ls s b s' ih hstep hfresh row hrow
    rw [← List.cons_append, List.filterMap_append] at hfresh
    rcases session_step hstep hrow with ⟨hold, -⟩ | ⟨opening, nonce, now, catalogNow, rfl, rfl⟩
    · exact ih (fun c hc => hfresh c (List.mem_append_left _ hc)) row hold
    · exact hfresh (opening.claims env nonce now) (List.mem_append_right _ List.mem_cons_self)
  intro hread
  obtain ⟨-, -, -, hlive⟩ := Sessions.readSession_eq_some hread
  obtain ⟨row, hrow, hnonce, -⟩ := SessionTable.isLive_iff.mp hlive
  exact hgone row hrow hnonce

theorem ended_session_unread_sample :
    ∃ s, Run (Step sampleEnv) .empty
      (sampleStatements.take 2 ++ .removeAllFor "ann" :: sampleStatements.drop 2) s ∧
      sampleEnv.sessions.readSession s.sessions (some "c1") .users sampleMoment ≠
        some passwordClaims := by
  obtain ⟨s, hexec⟩ : ∃ s, List.foldlM (fun s a => Statement.exec sampleEnv s a) .empty
      (sampleStatements.take 2 ++ .removeAllFor "ann" :: sampleStatements.drop 2) = .ok s :=
        ⟨_, rfl⟩
  have hrun := run_of_foldlM hexec
  exact ⟨s, hrun, ended_session_unread hrun (by unfold FreshNonces; decide) (by decide) rfl _ _ _⟩

end Pgokf.Web.Auth
