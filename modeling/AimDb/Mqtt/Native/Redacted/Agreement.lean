import AimDb.Mqtt.Native.Redacted

/-!
# Where the mask hides the password

The two scanners agree on the password as long as no slash stands before its end.
-/

namespace AimDb.Mqtt.Native

open Connector (ConnectorUrl parseConnectorUrl schemeSep splitCredentials splitUser splitPath
  splitPort)
open Framing (cut)
open Strings (rcut)
open Topic (Str)

theorem splitAuthority_append {front : Str} (free : '/' ∉ front) (tail : Str) :
    splitAuthority (front ++ tail) =
      (front ++ (splitAuthority tail).1, (splitAuthority tail).2) := by
  unfold splitAuthority
  cases found : cut '/' tail with
  | none =>
      have absent : '/' ∉ front ++ tail := by
        simp [free, Framing.cut_eq_none_iff.mp found]
      rw [Framing.cut_eq_none_iff.mpr absent]
  | some parts =>
      obtain ⟨rfl, unslashed⟩ := Framing.cut_eq_some_iff.mp found
      have absent : '/' ∉ front ++ parts.1 := by simp [free, unslashed]
      rw [← List.append_assoc, Framing.cut_append absent]

/-- The part behind the last `@`, or all of it. -/
def hostOf (authority : Str) : Str := ((rcut '@' authority).map Prod.snd).getD authority

namespace Broker

variable {broker : Broker} {password other : Str}

theorem splitOnce_url {scheme : Str} (given : broker.scheme = some scheme) (password : Str) :
    Strings.splitOnce schemeSep (broker.url password) = some (scheme, broker.rest password) := by
  have joined : broker.url password = scheme ++ schemeSep ++ broker.rest password := by
    simp [url, lead, given]
  rw [joined]
  exact Strings.splitOnce_append (by decide) (broker.scheme_free scheme given) _

theorem redacted_url (carries : broker.Carries password) :
    redacted (broker.url password) =
      (maskPassword broker.lead (splitAuthority (broker.rest password)).1
        (splitAuthority (broker.rest password)).2).getD (broker.url password) := by
  unfold redacted
  cases given : broker.scheme with
  | none =>
      have whole : broker.url password = broker.rest password := by simp [url, lead, given]
      have empty : broker.lead = [] := by simp [lead, given]
      rw [carries.rejected given, whole, empty]
      rfl
  | some scheme =>
      have taken : (broker.url password).take
          ((broker.url password).length - (broker.rest password).length) = broker.lead := by
        simp [url]
      rw [splitOnce_url given]
      dsimp only
      rw [taken]

/-- A slash before the end of the password hides the credentials from the mask. -/
theorem redacted_of_slash (carries : broker.Carries password)
    (slash : ¬ broker.Slashless password) :
    redacted (broker.url password) = broker.url password := by
  have mem : '/' ∈ broker.user ++ ':' :: password := by
    by_contra absent
    simp only [List.mem_append, List.mem_cons, not_or] at absent
    exact slash ⟨absent.1, absent.2.2⟩
  have unmarked : '@' ∉ broker.user ++ ':' :: password := by
    simp [broker.user_at, carries.single]
  obtain ⟨front, back, found⟩ := Strings.cut_isSome mem
  have frontUnmarked : '@' ∉ front := by
    intro inside
    refine unmarked ?_
    rw [(Framing.cut_eq_some_iff.mp found).1]
    exact List.mem_append_left _ inside
  have split := Strings.cut_append_of_cut ('@' :: broker.tail) found
  have authority : (splitAuthority (broker.rest password)).1 = front := by
    rw [splitAuthority, rest, split]
  rw [redacted_url carries, authority, maskPassword, Strings.rcut_eq_none_iff.mpr frontUnmarked]
  rfl

theorem redacted_of_slashless (carries : broker.Carries password)
    (slashless : broker.Slashless password) :
    redacted (broker.url password) = broker.lead ++ broker.user ++ masked ++
      hostOf (splitAuthority broker.tail).1 ++ (splitAuthority broker.tail).2 := by
  have free : '/' ∉ broker.user ++ ':' :: password ++ ['@'] := by
    simp [slashless.1, slashless.2]
  have joined : broker.rest password =
      (broker.user ++ ':' :: password ++ ['@']) ++ broker.tail := by simp [rest]
  rw [redacted_url carries, joined, splitAuthority_append free, maskPassword]
  cases found : rcut '@' (splitAuthority broker.tail).1 with
  | none =>
      have last := Strings.rcut_append (broker.user ++ ':' :: password)
        (Strings.rcut_eq_none_iff.mp found)
      have regroup : broker.user ++ ':' :: password ++ ['@'] ++ (splitAuthority broker.tail).1 =
          broker.user ++ ':' :: password ++ '@' :: (splitAuthority broker.tail).1 := by simp
      rw [regroup, last]
      dsimp only
      rw [Framing.cut_append broker.user_colon]
      simp [hostOf, found]
  | some parts =>
      have last := Strings.rcut_append_of_rcut
        (broker.user ++ ':' :: password ++ ['@']) found
      have regroup : broker.user ++ ':' :: password ++ ['@'] ++ parts.1 =
          broker.user ++ ':' :: (password ++ ['@'] ++ parts.1) := by simp
      rw [last, regroup]
      dsimp only
      rw [Framing.cut_append broker.user_colon]
      simp [hostOf, found]

theorem eq_of_at {front front' back back' : Str} (free : '@' ∉ front) (free' : '@' ∉ front')
    (same : front ++ '@' :: back = front' ++ '@' :: back') : front = front' := by
  have cuts := congrArg (cut '@') same
  rw [Framing.cut_append free, Framing.cut_append free'] at cuts
  exact congrArg Prod.fst (Option.some.inj cuts)

theorem not_masked (carries : broker.Carries password) (slash : ¬ broker.Slashless password)
    (slashless : broker.Slashless other) (tail : Str) :
    broker.url password ≠ broker.lead ++ broker.user ++ masked ++ tail := by
  intro same
  have behind : password ++ '@' :: broker.tail = ['*', '*', '*', '*'] ++ '@' :: tail := by
    simpa [url, rest, masked] using same
  have stars : password = ['*', '*', '*', '*'] :=
    eq_of_at carries.single (by decide) behind
  refine slash ⟨slashless.1, ?_⟩
  rw [stars]
  decide

theorem redacted_eq_iff (carries : broker.Carries password) (carriesOther : broker.Carries other) :
    redacted (broker.url password) = redacted (broker.url other) ↔
      password = other ∨ broker.Slashless password ∧ broker.Slashless other := by
  constructor
  · intro same
    by_cases slashless : broker.Slashless password
    · by_cases slashlessOther : broker.Slashless other
      · exact .inr ⟨slashless, slashlessOther⟩
      · rw [redacted_of_slashless carries slashless,
          redacted_of_slash carriesOther slashlessOther, List.append_assoc _ _ (splitAuthority _).2]
          at same
        exact absurd same.symm (not_masked carriesOther slashlessOther slashless _)
    · by_cases slashlessOther : broker.Slashless other
      · rw [redacted_of_slash carries slashless,
          redacted_of_slashless carriesOther slashlessOther,
          List.append_assoc _ _ (splitAuthority _).2] at same
        exact absurd same (not_masked carries slashless slashlessOther _)
      · rw [redacted_of_slash carries slashless, redacted_of_slash carriesOther slashlessOther]
          at same
        have behind : password ++ '@' :: broker.tail = other ++ '@' :: broker.tail := by
          simpa [url, rest] using same
        exact .inl (eq_of_at carries.single carriesOther.single behind)
  · rintro (rfl | ⟨slashless, slashlessOther⟩)
    · rfl
    · rw [redacted_of_slashless carries slashless,
        redacted_of_slashless carriesOther slashlessOther]

theorem parse_url {scheme : Str} (given : broker.scheme = some scheme)
    (carries : broker.Carries password) :
    parseConnectorUrl (broker.url password) = .ok
      { scheme
        host := (splitPort (splitPath broker.tail).1).1
        port := (splitPort (splitPath broker.tail).1).2
        path := (splitPath broker.tail).2.1
        username := some broker.user
        password := some password
        queryParams := (splitPath broker.tail).2.2 } := by
  have unmarked : '@' ∉ broker.user ++ ':' :: password := by
    simp [broker.user_at, carries.single]
  have credentials : splitCredentials (broker.rest password) =
      (some (broker.user ++ ':' :: password), broker.tail) := by
    rw [splitCredentials, rest, Framing.cut_append unmarked]
  have user : splitUser (some (broker.user ++ ':' :: password)) =
      (some broker.user, some password) := by
    simp [splitUser, Framing.cut_append broker.user_colon]
  unfold parseConnectorUrl
  rw [splitOnce_url given]
  dsimp only
  rw [credentials]
  dsimp only
  rw [user]

theorem rest_of_password {text : Str}
    (given : (splitUser (splitCredentials text).1).2 = some password) :
    ∃ user tail, text = user ++ ':' :: password ++ '@' :: tail ∧ ':' ∉ user ∧
      '@' ∉ user ∧
      '@' ∉ password ∧ (splitUser (splitCredentials text).1).1 = some user := by
  cases credentials : cut '@' text with
  | none => simp [splitCredentials, credentials, splitUser] at given
  | some parts =>
      obtain ⟨creds, tail⟩ := parts
      have cutAt : (splitCredentials text).1 = some creds := by
        simp [splitCredentials, credentials]
      rw [cutAt] at given ⊢
      cases colon : cut ':' creds with
      | none => simp [splitUser, colon] at given
      | some pair =>
          obtain ⟨user, secret⟩ := pair
          have same : secret = password := by simpa [splitUser, colon] using given
          obtain ⟨whole, unmarked⟩ := Framing.cut_eq_some_iff.mp credentials
          obtain ⟨inside, free⟩ := Framing.cut_eq_some_iff.mp colon
          rw [inside, List.mem_append, List.mem_cons, not_or, not_or] at unmarked
          subst same
          refine ⟨user, tail, ?_, free, unmarked.1, unmarked.2.2, by simp [splitUser, colon]⟩
          rw [whole, inside]

theorem eq_url_of_parse {text : Str} {parsed : ConnectorUrl}
    (accepted : parseConnectorUrl text = .ok parsed) (given : parsed.password = some password) :
    ∃ broker : Broker, broker.scheme = some parsed.scheme ∧
      parsed.username = some broker.user ∧ broker.Carries password ∧
      text = broker.url password := by
  unfold parseConnectorUrl at accepted
  cases found : Strings.splitOnce schemeSep text with
  | none =>
      rw [found] at accepted
      cases accepted
  | some parts =>
      rw [found] at accepted
      obtain ⟨scheme, behind⟩ := parts
      have fields : _ = parsed := Except.ok.inj accepted
      subst fields
      obtain ⟨user, tail, whole, free, unmarked, single, name⟩ := rest_of_password given
      have schemeFree : ∀ text ∈ some scheme, ¬ schemeSep <:+: text := by
        rintro _ ⟨⟩
        exact Strings.not_infix_of_splitOnce (by decide) found
      refine ⟨⟨some scheme, user, tail, schemeFree, free, unmarked⟩, rfl, name,
        ⟨single, fun absent => by cases absent⟩, ?_⟩
      rw [Strings.eq_append_of_splitOnce found, whole]
      simp [url, lead, rest]

end Broker

theorem replaceFrom_length (old new text : Str) : replaceFrom old new text.length text = [] := by
  induction text with
  | nil => rfl
  | cons c text inductionHypothesis => exact inductionHypothesis

theorem replace_append {front old : Str} (free : '/' ∉ front) (slash : '/' ∈ old) (new : Str) :
    replace old new (front ++ old) = front ++ new := by
  unfold replace
  induction front with
  | nil =>
      cases old with
      | nil => cases slash
      | cons c text =>
          have isPrefix : (c :: text).isPrefixOf (c :: text) = true :=
            List.isPrefixOf_iff_prefix.mpr (List.prefix_refl _)
          rw [List.nil_append, replaceFrom, if_pos isPrefix]
          simp [replaceFrom_length]
  | cons c front inductionHypothesis =>
      have notPrefix : ¬ old.isPrefixOf (c :: (front ++ old)) = true := by
        intro isPrefix
        obtain ⟨tail, same⟩ := List.isPrefixOf_iff_prefix.mp isPrefix
        obtain ⟨before, behind, found⟩ := Strings.cut_isSome slash
        obtain ⟨whole, unslashed⟩ := Framing.cut_eq_some_iff.mp found
        have first := Strings.cut_append_of_cut tail found
        have absent : '/' ∉ c :: front ++ before := by
          rw [List.mem_append, not_or]
          exact ⟨free, unslashed⟩
        have second := Framing.cut_append absent behind
        have aligned : c :: front ++ before ++ '/' :: behind = old ++ tail := by
          rw [same, List.append_assoc, ← whole]
          rfl
        rw [aligned, first] at second
        have lengths := congrArg List.length (Prod.mk.inj (Option.some.inj second)).1
        simp only [List.length_append, List.length_cons] at lengths
        omega
      rw [List.cons_append, replaceFrom, if_neg notPrefix,
        inductionHypothesis fun mem => free (List.mem_cons_of_mem _ mem)]
      rfl

theorem slash_mem_withTopic (url : Str) : '/' ∈ withTopic url := by
  unfold withTopic
  split
  · simp
  next enough =>
    rw [not_or, not_not] at enough
    exact enough.1

theorem ends_in_slash (url front : Str) : url.rdropWhile (· = '/') ≠ front ++ ['/'] := by
  intro same
  have again := List.rdropWhile_idempotent (p := (· = '/')) (l := url)
  rw [same, List.rdropWhile_concat_pos _ _ _ (by simp)] at again
  have shorter := (List.rdropWhile_prefix (· = '/') front).length_le
  rw [again, List.length_append, List.length_singleton] at shorter
  omega

theorem not_infix_withTopic {url : Str} (absent : ¬ schemeSep <:+: url) :
    ¬ schemeSep <:+: withTopic url := by
  unfold withTopic
  split
  · rintro ⟨front, back, whole⟩
    have trimmed : ¬ schemeSep <:+: url.rdropWhile (· = '/') := fun inside =>
      absent (inside.trans (List.rdropWhile_prefix _ _).isInfix)
    rcases List.append_eq_append_iff.mp whole with
      ⟨behind, ends, -⟩ | ⟨overlap, ends, starts⟩
    · exact trimmed ⟨front, behind, ends.symm⟩
    · cases overlap with
      | nil =>
          refine trimmed ⟨front, [], ?_⟩
          simpa using ends
      | cons c overlap =>
          obtain ⟨rfl, rest⟩ := List.cons.inj starts
          rcases List.eq_nil_or_concat overlap with rfl | ⟨before, last, rfl⟩
          · have whole : url.rdropWhile (· = '/') ++ ['/'] =
                front ++ [':'] ++ ['/'] ++ ['/'] := by
              simpa [schemeSep] using ends.symm
            exact ends_in_slash url (front ++ [':']) (List.append_inj_left' whole rfl)
          · have whole : front ++ [':', '/'] ++ ['/'] =
                url.rdropWhile (· = '/') ++ '/' :: before ++ [last] := by
              simpa [schemeSep] using ends
            have lastSlash : ['/'] = [last] := List.append_inj_right' whole rfl
            have mem : '/' ∈ ['d', 'u', 'm', 'm', 'y'] := by
              rw [rest, ← (List.cons.inj lastSlash).1]
              simp
            exact absurd mem (by decide)
  · exact absent

def missingScheme (text : Str) : DbError :=
  .invalidOperation "parse_connector_url" s!"Missing scheme in URL: {String.ofList text}"

theorem parse_of_rejected {text : Str} (rejected : Strings.splitOnce schemeSep text = none) :
    parseConnectorUrl text = .error (missingScheme text) := by
  unfold parseConnectorUrl missingScheme
  rw [rejected]

/-- What the error puts before the text it quotes. -/
def rejection : Str :=
  ("Invalid MQTT URL: " ++
    ("Invalid operation '" ++ "parse_connector_url" ++ "': " ++ "Missing scheme in URL: ")).toList

theorem message_of_rejected (url : Str) :
    (s!"Invalid MQTT URL: {displayParseError (missingScheme url)}").toList = rejection ++ url := by
  unfold missingScheme displayParseError rejection
  simp only [String.toList_append, String.toList_ofList, List.append_assoc, toString]

theorem report_of_rejected {brokerUrl : Str}
    (rejected : Strings.splitOnce schemeSep brokerUrl = none) :
    report brokerUrl = .rejected (rejection ++ redacted (withTopic brokerUrl)) := by
  have still : Strings.splitOnce schemeSep (withTopic brokerUrl) = none :=
    Strings.splitOnce_eq_none_iff.mpr
      (not_infix_withTopic (Strings.splitOnce_eq_none_iff.mp rejected))
  have free : '/' ∉ rejection := by decide
  dsimp only [report]
  rw [parse_of_rejected still]
  dsimp only
  rw [message_of_rejected, replace_append free (slash_mem_withTopic _)]

namespace Broker

variable {broker : Broker} {password other : Str}

/-- What a build adds to the text, or takes from it, is behind the credentials. -/
def topicTail (broker : Broker) : Str :=
  if '/' ∉ broker.lead ++ broker.tail ∨ (broker.lead ++ broker.tail).count '/' < 3 then
    broker.tail.rdropWhile (· = '/') ++ ['/', 'd', 'u', 'm', 'm', 'y']
  else broker.tail

def withTopic (broker : Broker) : Broker := { broker with tail := broker.topicTail }

theorem rdropWhile_url (password : Str) :
    (broker.url password).rdropWhile (· = '/') =
      ({ broker with tail := broker.tail.rdropWhile (· = '/') } : Broker).url password := by
  have joined : broker.url password =
      broker.lead ++ broker.user ++ ':' :: password ++ ['@'] ++ broker.tail := by simp [url, rest]
  have reversed : (broker.lead ++ broker.user ++ ':' :: password ++ ['@'] ++ broker.tail).reverse =
      broker.tail.reverse ++ '@' :: (broker.lead ++ broker.user ++ ':' :: password).reverse := by
    simp
  rw [joined, List.rdropWhile, reversed, List.dropWhile_append]
  split
  next empty =>
    have gone : broker.tail.rdropWhile (· = '/') = [] := by
      rw [List.rdropWhile, List.isEmpty_iff.mp empty]
      rfl
    simp [gone, url, lead, rest]
  · simp [List.rdropWhile, url, lead, rest]

theorem withTopic_url (slashless : broker.Slashless password) :
    Native.withTopic (broker.url password) = broker.withTopic.url password := by
  have mem : '/' ∈ broker.url password ↔ '/' ∈ broker.lead ++ broker.tail := by
    simp [url, rest, slashless.1, slashless.2]
  have count : (broker.url password).count '/' = (broker.lead ++ broker.tail).count '/' := by
    simp [url, rest, List.count_eq_zero.mpr slashless.1, List.count_eq_zero.mpr slashless.2]
  unfold Native.withTopic withTopic topicTail
  simp only [mem, count, rdropWhile_url]
  split <;> simp [url, lead, rest]

theorem withTopic_carries (carries : broker.Carries password)
    (slashless : broker.Slashless password) : broker.withTopic.Carries password := by
  refine ⟨carries.single, fun absent => ?_⟩
  rw [← withTopic_url slashless, Strings.splitOnce_eq_none_iff]
  exact not_infix_withTopic (Strings.splitOnce_eq_none_iff.mp (carries.rejected absent))

theorem report_eq (carries : broker.Carries password) (carriesOther : broker.Carries other)
    (slashless : broker.Slashless password) (slashlessOther : broker.Slashless other) :
    report (broker.url password) = report (broker.url other) := by
  cases given : broker.scheme with
  | none =>
      rw [report_of_rejected (carries.rejected given),
        report_of_rejected (carriesOther.rejected given), withTopic_url slashless,
        withTopic_url slashlessOther,
        (redacted_eq_iff (withTopic_carries carries slashless)
          (withTopic_carries carriesOther slashlessOther)).mpr
          (.inr ⟨slashless, slashlessOther⟩)]
  | some scheme =>
      have scheme' : broker.withTopic.scheme = some scheme := given
      dsimp only [report]
      rw [withTopic_url slashless, withTopic_url slashlessOther,
        parse_url scheme' (withTopic_carries carries slashless),
        parse_url scheme' (withTopic_carries carriesOther slashlessOther),
        (redacted_eq_iff carries carriesOther).mpr (.inr ⟨slashless, slashlessOther⟩)]
      rfl

/-- The mask and the build's own texts hide the password exactly where no slash stands before
its end. -/
theorem hidden_iff (broker : Broker) (password other : Str) (carries : broker.Carries password)
    (carriesOther : broker.Carries other) :
    redacted (broker.url password) = redacted (broker.url other) ∧
        report (broker.url password) = report (broker.url other) ↔
      password = other ∨ broker.Slashless password ∧ broker.Slashless other := by
  rw [redacted_eq_iff carries carriesOther, and_iff_left_iff_imp]
  rintro (rfl | ⟨slashless, slashlessOther⟩)
  · rfl
  · exact report_eq carries carriesOther slashless slashlessOther

/-- `mqtt://user:…@host:1883/t` -/
def exampleBroker : Broker where
  scheme := some ['m', 'q', 't', 't']
  user := ['u', 's', 'e', 'r']
  tail := ['h', 'o', 's', 't', ':', '1', '8', '8', '3', '/', 't']
  scheme_free := by decide
  user_colon := by decide
  user_at := by decide

theorem hidden_iff_short :
    redacted (exampleBroker.url ['a', ':', '?']) = redacted (exampleBroker.url ['b']) ∧
      report (exampleBroker.url ['a', ':', '?']) = report (exampleBroker.url ['b']) :=
  (hidden_iff exampleBroker ['a', ':', '?'] ['b'] ⟨by decide, fun absent => by cases absent⟩
    ⟨by decide, fun absent => by cases absent⟩).mpr
      (.inr ⟨⟨by decide, by decide⟩, ⟨by decide, by decide⟩⟩)

/-- A password with a slash is written out. -/
theorem slash_not_hidden :
    exampleBroker.Carries ['p', '/', 's'] ∧ exampleBroker.Carries ['p', '/', 't'] ∧
      redacted (exampleBroker.url ['p', '/', 's']) = exampleBroker.url ['p', '/', 's'] ∧
      redacted (exampleBroker.url ['p', '/', 's']) ≠
        redacted (exampleBroker.url ['p', '/', 't']) := by
  refine ⟨⟨by decide, fun absent => by cases absent⟩,
    ⟨by decide, fun absent => by cases absent⟩, by rfl, by decide⟩

end Broker

end AimDb.Mqtt.Native
