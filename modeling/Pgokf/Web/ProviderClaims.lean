import Pgokf.Json
import Pgokf.Lib.OrderedMap
import Pgokf.Lib.Transaction
import Pgokf.Web.Identity

/-! # The person a provider's claims name (`oidc.rs`, `principal_from`)

The claims of a list are tried in order, and nothing keeps the values of different claims apart. -/

namespace Pgokf.Web

open Lib

section Claims

variable {F : Type}

/- What an ID token says, without the members that only its verification reads. -/
structure IdClaims (F : Type) where
  sub : Text
  other : OrderedMap Text (Json F)

/- The settings of a provider that decide whom its claims name. -/
structure SubjectConfig where
  subjectClaims : List Text
  groupsClaim : Text
  roles : RoleMapping

def eqIgnoreAsciiCase (s t : Text) : Bool := s.map Char.toLower = t.map Char.toLower

/- Providers send a boolean or, less correctly, the string `"true"`. -/
def emailVerified (claims : IdClaims F) : Bool :=
  match OrderedMap.get claims.other "email_verified" with
  | some (.bool verified) => verified
  | some (.string text) => eqIgnoreAsciiCase text "true"
  | _ => false

def claimText (claims : IdClaims F) (name : Text) : Option Text :=
  if name = "sub" then some claims.sub
  else if name = "email" && !emailVerified claims then none
  else (OrderedMap.get claims.other name).bind Json.asStr

def stringList : Option (Json F) → List Text
  | some (.array items) => items.filterMap Json.asStr
  | some (.string one) =>
    ((one.splitOnP fun c => c = ',' || c = ' ').map trim).filter fun s => !s.isEmpty
  | _ => []

def subjectOf (config : SubjectConfig) (claims : IdClaims F) : Option Text :=
  ((config.subjectClaims.filterMap (claimText claims)).map trim).find? validSubject

/- The display name, or the subject where it is missing, empty or has control characters. -/
def displayOf (claims : IdClaims F) (subject : Text) : Text :=
  ((((OrderedMap.get claims.other "name").bind Json.asStr).map trim).filter fun name =>
    !name.isEmpty && name.all fun c => !isControl c).getD subject

def principalFrom (config : SubjectConfig) (claims : IdClaims F) :
    Except Text (Principal × List Text) := do
  let subject ← orRefuse (subjectOf config claims)
    ("no claim among " ++ ", ".toList.intercalate config.subjectClaims ++
      " names this person in a form this catalog can record")
  let groups := stringList (OrderedMap.get claims.other config.groupsClaim)
  .ok ({ subject, display := displayOf claims subject, role := config.roles.roleFor groups },
    config.roles.knownGroups groups)

/-- The first configured claim whose text is a valid subject once it is trimmed. -/
def NamedBy (subjectClaims : List Text) (claims : IdClaims F) (name text : Text) : Prop :=
  ∃ before after, subjectClaims = before ++ name :: after ∧ claimText claims name = some text ∧
    validSubject (trim text) = true ∧
    ∀ n ∈ before, ∀ t, claimText claims n = some t → validSubject (trim t) = false

variable {config : SubjectConfig} {claims : IdClaims F} {subject : Text}

theorem subjectOf_eq_some : subjectOf config claims = some subject ↔
    ∃ name text, NamedBy config.subjectClaims claims name text ∧ trim text = subject := by
  rw [subjectOf]
  generalize config.subjectClaims = names
  induction names with
  | nil => simp [NamedBy]
  | cons n names ih =>
    -- A claim that offers nothing usable is passed over on both sides.
    have hpass (hn : ∀ t, claimText claims n = some t → validSubject (trim t) = false) :
        (∃ name text, NamedBy names claims name text ∧ trim text = subject) ↔
          ∃ name text, NamedBy (n :: names) claims name text ∧ trim text = subject := by
      refine exists₂_congr fun name text => and_congr_left fun _ => ?_
      constructor
      · rintro ⟨before, after, hsplit, htext, hvalid, hbefore⟩
        refine ⟨n :: before, after, by rw [hsplit, List.cons_append], htext, hvalid, fun m hm => ?_⟩
        rcases List.mem_cons.mp hm with rfl | hm
        · exact hn
        · exact hbefore m hm
      · rintro ⟨before, after, hsplit, htext, hvalid, hbefore⟩
        cases before with
        | nil =>
          obtain ⟨rfl, rfl⟩ := List.cons.inj hsplit
          rw [hn text htext] at hvalid
          cases hvalid
        | cons m before =>
          obtain ⟨rfl, rfl⟩ := List.cons.inj hsplit
          exact ⟨before, after, rfl, htext, hvalid, fun k hk =>
            hbefore k (List.mem_cons_of_mem _ hk)⟩
    cases htext : claimText claims n with
    | none =>
      rw [List.filterMap_cons_none htext, ih]
      exact hpass fun t ht => by rw [htext] at ht; cases ht
    | some t =>
      rw [List.filterMap_cons_some htext, List.map_cons]
      cases hvalid : validSubject (trim t) with
      | false =>
        rw [List.find?_cons_of_neg (by rw [hvalid]; exact Bool.false_ne_true), ih]
        refine hpass fun u hu => ?_
        rw [htext] at hu
        rw [← Option.some.inj hu, hvalid]
      | true =>
        rw [List.find?_cons_of_pos hvalid, Option.some.injEq]
        constructor
        · intro h
          exact ⟨n, t, ⟨[], names, rfl, htext, hvalid, by simp⟩, h⟩
        · rintro ⟨name, text, ⟨before, after, hsplit, hname, hv, hbefore⟩, rfl⟩
          cases before with
          | nil =>
            obtain ⟨rfl, rfl⟩ := List.cons.inj hsplit
            rw [htext] at hname
            rw [Option.some.inj hname]
          | cons m before =>
            obtain ⟨rfl, rfl⟩ := List.cons.inj hsplit
            have := hbefore n List.mem_cons_self t htext
            rw [hvalid] at this
            cases this

theorem principalFrom_subject : (∃ p, principalFrom config claims = .ok p ∧ p.1.subject = subject) ↔
    ∃ name text, NamedBy config.subjectClaims claims name text ∧ trim text = subject := by
  rw [← subjectOf_eq_some]
  simp only [principalFrom, bind_eq_ok, orRefuse_eq_ok]
  constructor
  · rintro ⟨p, ⟨s, hs, hp⟩, hsubject⟩
    obtain rfl := Except.ok.inj hp
    rw [hs, ← hsubject]
  · intro hs
    exact ⟨_, ⟨subject, hs, rfl⟩, rfl⟩

end Claims

/- The claim sets a provider may issue for each account, and what it guarantees of the values that
name people. -/
structure Provider (F Account : Type) (names : List Text) where
  Issues : Account → IdClaims F → Prop
  subUnique : ∀ a b x y, Issues a x → Issues b y → x.sub = y.sub → a = b
  emailUnique : ∀ a b x y, Issues a x → Issues b y → emailVerified x = true →
    emailVerified y = true →
    ∀ t, (OrderedMap.get x.other "email").bind Json.asStr = some t →
      (OrderedMap.get y.other "email").bind Json.asStr = some t → a = b
  claimUnique : ∀ name ∈ names, name ≠ "sub" → name ≠ "email" →
    ∀ a b x y, Issues a x → Issues b y →
      ∀ t, (OrderedMap.get x.other name).bind Json.asStr = some t →
        (OrderedMap.get y.other name).bind Json.asStr = some t → a = b

section Accounts

variable {F Account : Type} {names : List Text} {a b : Account} {x y : IdClaims F}
  {name text : Text}

theorem Provider.claimText_unique (provider : Provider F Account names) (hx : provider.Issues a x)
    (hy : provider.Issues b y) (hname : name ∈ names) (htx : claimText x name = some text)
    (hty : claimText y name = some text) : a = b := by
  unfold claimText at htx hty
  by_cases hsub : name = "sub"
  · rw [if_pos hsub] at htx hty
    exact provider.subUnique a b x y hx hy ((Option.some.inj htx).trans (Option.some.inj hty).symm)
  · rw [if_neg hsub] at htx hty
    by_cases hemail : name = "email"
    · subst hemail
      cases hvx : emailVerified x with
      | false => simp [hvx] at htx
      | true =>
        cases hvy : emailVerified y with
        | false => simp [hvy] at hty
        | true =>
          rw [if_neg (by simp [hvx])] at htx
          rw [if_neg (by simp [hvy])] at hty
          exact provider.emailUnique a b x y hx hy hvx hvy text htx hty
    · rw [decide_eq_false hemail, Bool.false_and, if_neg Bool.false_ne_true] at htx hty
      exact provider.claimUnique name hname hsub hemail a b x y hx hy text htx hty

/-- A claim that is there, is verified if it is an address, and is a valid subject once it is
trimmed. -/
def Usable (claims : IdClaims F) (name text : Text) : Prop :=
  claimText claims name = some text ∧ validSubject (trim text) = true

theorem NamedBy.usable {list : List Text} (h : NamedBy list x name text) : Usable x name text ∧
    name ∈ list := by
  obtain ⟨before, after, rfl, htext, hvalid, -⟩ := h
  exact ⟨⟨htext, hvalid⟩, List.mem_append_right _ List.mem_cons_self⟩

theorem Usable.namedBy (h : Usable x name text) (before after : List Text)
    (hbefore : ∀ n ∈ before, ∀ t, ¬Usable x n t) : NamedBy (before ++ name :: after) x name text :=
  ⟨before, after, rfl, h.1, h.2, fun n hn t ht => Bool.eq_false_iff.mpr fun hv =>
    hbefore n hn t ⟨ht, hv⟩⟩

variable {c d u v : Text}

/-- The claim that names one account is of no use for the other, or the other way round. -/
theorem unusable_of_namedBy {list : List Text} (hx : NamedBy list x c u) (hy : NamedBy list y d v)
    (hcd : c ≠ d) : (∀ w, ¬Usable y c w) ∨ ∀ w, ¬Usable x d w := by
  obtain ⟨before, after, hsplit, -, -, hbefore⟩ := hx
  obtain ⟨before', after', hsplit', -, -, hbefore'⟩ := hy
  have hunusable : ∀ {z : IdClaims F} {n : Text},
    (∀ t, claimText z n = some t → validSubject (trim t) = false) →
      ∀ w, ¬Usable z n w := by
    intro z n hn w hw
    exact Bool.false_ne_true ((hn w hw.1).symm.trans hw.2)
  rcases List.append_eq_append_iff.mp
    (hsplit.symm.trans hsplit') with ⟨mid, rfl, hmid⟩ | ⟨mid, rfl, hmid⟩
  · cases mid with
    | nil => exact absurd (List.cons.inj hmid).1 hcd
    | cons m mid =>
      obtain ⟨rfl, -⟩ := List.cons.inj hmid
      exact .inl (hunusable (hbefore' c (by simp)))
  · cases mid with
    | nil => exact absurd (List.cons.inj hmid).1.symm hcd
    | cons m mid =>
      obtain ⟨rfl, -⟩ := List.cons.inj hmid
      exact .inr (hunusable (hbefore d (by simp)))

/-- One claim with texts that differ in blanks; or two claims with one text up to blanks, of which
one is of no use for the other account. -/
def Mergeable (names : List Text) (x y : IdClaims F) : Prop :=
  (∃ c ∈ names, ∃ u v, Usable x c u ∧ Usable y c v ∧ trim u = trim v ∧ u ≠ v) ∨
    ∃ c ∈ names, ∃ d ∈ names, ∃ u v, c ≠ d ∧ Usable x c u ∧ Usable y d v ∧ trim u = trim v ∧
      ((∀ w, ¬Usable y c w) ∨ ∀ w, ¬Usable x d w)

theorem merged {list : List Text} (hx : NamedBy list x c u) (hy : NamedBy list y d v)
    (htrim : trim u = trim v) :
    ∃ config p q, config.subjectClaims = list ∧ principalFrom config x = .ok p ∧
      principalFrom config y = .ok q ∧ p.1.subject = q.1.subject := by
  obtain ⟨p, hp, hps⟩ : ∃ p, principalFrom ⟨list, [], ⟨[], .viewer⟩⟩ x = .ok p ∧
    p.1.subject = trim u :=
    principalFrom_subject.mpr ⟨c, u, hx, rfl⟩
  obtain ⟨q, hq, hqs⟩ : ∃ q, principalFrom ⟨list, [], ⟨[], .viewer⟩⟩ y = .ok q ∧
    q.1.subject = trim v :=
    principalFrom_subject.mpr ⟨d, v, hy, rfl⟩
  exact ⟨_, p, q, rfl, hp, hq, by rw [hps, hqs, htrim]⟩

/-- Two accounts of a provider are kept apart under every list of its claims unless their claim sets
are mergeable. -/
theorem accounts_apart_iff (provider : Provider F Account names) (hx : provider.Issues a x)
    (hy : provider.Issues b y) (hne : a ≠ b) :
    (∀ config : SubjectConfig, config.subjectClaims ⊆ names →
      ∀ p q, principalFrom config x = .ok p →
      principalFrom config y = .ok q → p.1.subject ≠ q.1.subject) ↔ ¬Mergeable names x y := by
  constructor
  · intro hapart
    have hlist : ∀ list ⊆ names, ∀ {c d u v}, NamedBy list x c u → NamedBy list y d v →
        trim u ≠ trim v := by
      intro list hlist c d u v hcu hdv htrim
      obtain ⟨config, p, q, rfl, hp, hq, hsame⟩ := merged hcu hdv htrim
      exact hapart config hlist p q hp hq hsame
    rintro (⟨c, hc, u, v, hcu, hcv, htrim, -⟩
      | ⟨c, hc, d, hd, u, v, -, hcu, hdv, htrim, hunusable | hunusable⟩)
    · exact hlist [c] (by simpa using hc) (hcu.namedBy [] [] (by simp))
        (hcv.namedBy [] [] (by simp)) htrim
    · exact hlist [c, d] (by simp [hc, hd]) (hcu.namedBy [] [d] (by simp))
        (hdv.namedBy [c] [] (by simpa using hunusable)) htrim
    · exact hlist [d, c] (by simp [hc, hd]) (hcu.namedBy [d] [] (by simpa using hunusable))
        (hdv.namedBy [] [c] (by simp)) htrim
  · intro hmergeable config hlist p q hp hq hsame
    obtain ⟨c, u, hcu, hu⟩ := principalFrom_subject.mp ⟨p, hp, rfl⟩
    obtain ⟨d, v, hdv, hv⟩ := principalFrom_subject.mp ⟨q, hq, rfl⟩
    have htrim : trim u = trim v := by rw [hu, hv, hsame]
    obtain ⟨husable, hc⟩ := hcu.usable
    obtain ⟨hvusable, hd⟩ := hdv.usable
    by_cases hcd : c = d
    · subst hcd
      refine hmergeable (.inl ⟨c, hlist hc, u, v, husable, hvusable, htrim, ?_⟩)
      rintro rfl
      exact hne (provider.claimText_unique hx hy (hlist hc) husable.1 hvusable.1)
    · exact hmergeable (.inr ⟨c, hlist hc, d, hlist hd, u, v, hcd, husable, hvusable, htrim,
        unusable_of_namedBy hcu hdv hcd⟩)

end Accounts

def defaultSubjectClaims : List Text := ["preferred_username", "email", "sub"]

def defaultConfig : SubjectConfig := ⟨defaultSubjectClaims, "groups", ⟨[], .viewer⟩⟩

def victim : IdClaims Unit where
  sub := "8f3a-1"
  other := [("preferred_username", .string "alice smith"),
    ("email", .string "victim@example.test"), ("email_verified", .bool true)]

/- The address of the other account, unverified, as the user name. -/
def pretender : IdClaims Unit where
  sub := "8f3a-2"
  other := [("preferred_username", .string "victim@example.test")]

def bystander : IdClaims Unit where
  sub := "8f3a-3"
  other := [("preferred_username", .string "bob")]

def claimsOf : Fin 3 → IdClaims Unit
  | 0 => victim
  | 1 => pretender
  | 2 => bystander

/- Three accounts that meet every guarantee asked of the provider. -/
def sampleProvider : Provider Unit (Fin 3) defaultConfig.subjectClaims where
  Issues a x := x = claimsOf a
  subUnique := by
    rintro a b x y rfl rfl
    revert a b
    decide
  emailUnique := by
    rintro a b x y rfl rfl hx hy
    have hverified : ∀ c, emailVerified (claimsOf c) = true → c = 0 := by decide
    intro t _ _
    rw [hverified a hx, hverified b hy]
  claimUnique := by
    rintro name hname hsub hemail a b x y rfl rfl t ht ht'
    obtain rfl : name = "preferred_username" := by
      simp only [defaultConfig, defaultSubjectClaims, List.mem_cons, List.not_mem_nil,
        or_false] at hname
      exact hname.resolve_right fun h => h.elim hemail hsub
    have hnames : ∀ a b, (OrderedMap.get (claimsOf a).other "preferred_username").bind Json.asStr =
        (OrderedMap.get (claimsOf b).other "preferred_username").bind Json.asStr → a = b := by
      decide
    exact hnames a b (ht.trans ht'.symm)

theorem accounts_apart_bystander :
    (0 : Fin 3) ≠ 2 ∧ ∀ p q, principalFrom defaultConfig victim = .ok p →
      principalFrom defaultConfig bystander = .ok q → p.1.subject ≠ q.1.subject := by
  have hvictim : sampleProvider.Issues 0 victim := rfl
  have hbystander : sampleProvider.Issues 2 bystander := rfl
  have hnever : ∀ c ∈ defaultSubjectClaims, ∀ d ∈ defaultSubjectClaims,
      claimText victim c ≠ none →
        (claimText victim c).map trim ≠ (claimText bystander d).map trim := by
    decide +kernel
  have htexts : ∀ {c d u v}, c ∈ defaultSubjectClaims → d ∈ defaultSubjectClaims →
    Usable victim c u →
      Usable bystander d v → trim u ≠ trim v := by
    intro c d u v hc hd hu hv htrim
    refine hnever c hc d hd (by simp [hu.1]) ?_
    rw [hu.1, hv.1, Option.map_some, Option.map_some, htrim]
  refine ⟨by decide, (accounts_apart_iff sampleProvider hvictim hbystander (by decide)).mpr ?_
    defaultConfig (List.Subset.refl _)⟩
  rintro (⟨c, hc, u, v, hu, hv, htrim, -⟩ | ⟨c, hc, d, hd, u, v, -, hu, hv, htrim, -⟩)
  · exact htexts hc hc hu hv htrim
  · exact htexts hc hd hu hv htrim

/-- With the default claims, an account takes the actor of another by carrying its address as a user
name. -/
theorem address_assumed_as_username :
    sampleProvider.Issues 0 victim ∧ sampleProvider.Issues 1 pretender ∧
      (principalFrom defaultConfig victim).map (·.1.subject) = .ok "victim@example.test" ∧
      (principalFrom defaultConfig pretender).map (·.1.subject) = .ok "victim@example.test" :=
  ⟨rfl, rfl, by rfl, by rfl⟩

end Pgokf.Web
