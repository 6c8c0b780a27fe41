import InDoubt.Proofs.Locator.Hosts

/-!
Authorities read back. Username and password have no character left that would be encoded, the host
is one that the scheme allows, the port is not the default one, and without a host there is nothing
else (`Plain`). Such an authority is read from what is written for it, if its end can be told from
what follows.
-/

namespace InDoubt.Locator

open Host (NameChar HostChar)

variable {idna : Idna} {kind : SchemeKind} {s t after : List Char} {c : Char} {host : Host}
  {port : Option Nat} {a : Authority}

/-! Hosts of the schemes. -/

/-- A host that may be read under a scheme that always has an authority, or has it on demand. -/
def Host.Allowed (idna : Idna) (kind : SchemeKind) (h : Host) : Prop :=
  if kind = .general then h.General else h.Special idna

theorem Host.Allowed.written (h : host.Allowed idna kind) : host.Written := by
  unfold Allowed at h
  split at h
  · exact h.written
  · exact h.written

theorem allowed_of_hostOf (e : hostOf idna kind s = .ok host) : host.Allowed idna kind := by
  unfold hostOf at e
  unfold Host.Allowed
  split at e
  · rename_i general
    rw [if_pos general]
    exact Host.general_of_parseName e
  · rename_i special
    rw [if_neg special]
    split at e
    · cases e
    · exact Host.special_of_parseDomain e

theorem hostOf_toChars (h : host.Allowed idna kind) : hostOf idna kind host.toChars = .ok host := by
  unfold Host.Allowed at h
  unfold hostOf
  split
  · rename_i general
    rw [if_pos general] at h
    exact Host.parseName_toChars h
  · rename_i special
    rw [if_neg special] at h
    rw [if_neg h.toChars_ne_nil, Host.parseDomain_toChars h]

/-! Credentials. -/

theorem nameChar_of_userinfo (h : EncodeSet.userinfo c = false) : NameChar c := by
  simp only [EncodeSet.userinfo, EncodeSet.path, EncodeSet.fragment, EncodeSet.controls,
    Bool.or_eq_false_iff, decide_eq_false_iff_not, List.mem_cons, List.not_mem_nil, or_false,
    not_or] at h
  have space : c.toNat ≠ 0x20 := fun e => h.1.1.2.1 (Char.toNat_inj.mp e)
  refine ⟨by omega, ?_⟩
  simp [h]

theorem splitLastAt_of_not_mem (h : '@' ∉ s) : splitLastAt s = none := by
  induction s with
  | nil => rfl
  | cons c s ih =>
      simp only [List.mem_cons, not_or] at h
      rw [splitLastAt, ih h.2]
      exact if_neg fun e => h.1 e.symm

theorem splitLastAt_append (h : '@' ∉ t) (s : List Char) :
    splitLastAt (s ++ '@' :: t) = some (s, t) := by
  induction s with
  | nil => simp [splitLastAt, splitLastAt_of_not_mem h]
  | cons c s ih => rw [List.cons_append, splitLastAt, ih]

theorem clean_credentialsOf (s : List Char) : Clean .userinfo (credentialsOf s).1 ∧
    ∀ password, (credentialsOf s).2 = some password → password ≠ [] ∧ Clean .userinfo password := by
  unfold credentialsOf
  split
  · refine ⟨clean_percentEncode (by decide) _, ?_⟩
    intro password e
    cases e
    exact ⟨percentEncode_ne_nil (List.cons_ne_nil _ _), clean_percentEncode (by decide) _⟩
  · exact ⟨clean_percentEncode (by decide) _, nofun⟩

/-- The text of the credentials, without the at sign. -/
def Authority.info (a : Authority) : List Char :=
  match a.password with
  | some password => a.username ++ ':' :: password
  | none => a.username

theorem Authority.credentials_eq (a : Authority) :
    a.credentials = if a.info = [] then [] else a.info ++ ['@'] := by
  obtain ⟨username, password, host, port⟩ := a
  cases password with
  | none => rfl
  | some password => simp [credentials, info]

/-! Ports. -/

/-- What follows an authority starts with a character that ends it. -/
def EndsHere (after : List Char) : Prop := ∀ c ∈ after.head?, c = '/' ∨ c = '?' ∨ c = '#'

theorem EndsHere.stopsAt (h : EndsHere after) (kind : SchemeKind) :
    StopsAt (fun c => !endsAuthority kind c) after := by
  intro c mem
  rcases h c mem with rfl | rfl | rfl <;> simp [endsAuthority]

theorem splitPort_toDigits {n : Nat} (le : n ≤ 65535) (other : kind ≠ .special n)
    (ends : EndsHere after) :
    splitPort kind (Nat.toDigits 10 n ++ after) = .ok (some n, after) := by
  have digits : ∀ c ∈ Nat.toDigits 10 n, c.isDigit = true :=
    fun c => Nat.isDigit_of_mem_toDigits (by decide) (by decide)
  have stops : StopsAt Char.isDigit after := by
    intro c mem
    rcases ends c mem with rfl | rfl | rfl <;> rfl
  have number : (digits? 10 (Nat.toDigits 10 n)).getD 0 = n := by
    rw [digits?_toDigits (by decide) (by decide)]
    rfl
  have kept : ¬(Nat.toDigits 10 n = [] ∨ kind = .special n) :=
    not_or.mpr ⟨Nat.toDigits_ne_nil, other⟩
  simp only [splitPort, takeWhile_append_of_stopsAt digits stops,
    dropWhile_append_of_stopsAt digits stops, number, if_neg (Nat.not_lt.mpr le), if_neg kept]
  cases after with
  | nil => rfl
  | cons c after =>
      refine if_pos ?_
      rcases ends c rfl with rfl | rfl | rfl <;> simp [isQueryOrFragment]

theorem port_of_splitPort (e : splitPort kind s = .ok (port, after)) {n : Nat}
    (h : port = some n) : n ≤ 65535 ∧ kind ≠ .special n := by
  simp only [splitPort] at e
  split at e
  · cases e
  · rename_i le
    have some_of (e : (if s.takeWhile Char.isDigit = [] ∨
        kind = .special ((digits? 10 (s.takeWhile Char.isDigit)).getD 0) then none
        else some ((digits? 10 (s.takeWhile Char.isDigit)).getD 0)) = some n) :
        n ≤ 65535 ∧ kind ≠ .special n := by
      split at e
      · cases e
      · rename_i kept
        cases e
        exact ⟨Nat.le_of_not_lt le, fun own => kept (.inr own)⟩
    split at e
    · split at e
      · cases e
        exact some_of h
      · cases e
    · cases e
      exact some_of h

/-! Host and port. -/

def portText (port : Option Nat) : List Char :=
  match port with
  | some n => ':' :: Nat.toDigits 10 n
  | none => []

/-- What may be read as host and port. -/
structure HostPort (idna : Idna) (kind : SchemeKind) (host : Host) (port : Option Nat) : Prop where
  allowed : host.Allowed idna kind
  bound : ∀ {n}, port = some n → n ≤ 65535 ∧ kind ≠ .special n
  alone : host.isEmpty = true → port = none

theorem endsAuthority_of_hostChar (h : HostChar c) : endsAuthority kind c = false := by
  rcases h with ⟨-, free⟩ | mem
  · simp only [List.mem_cons, List.not_mem_nil, or_false, not_or] at free
    simp [endsAuthority, free]
  · simp only [List.mem_cons, List.not_mem_nil, or_false] at mem
    rcases mem with rfl | rfl | rfl <;> simp [endsAuthority]

theorem hostPort_of_hostAndPort (e : hostAndPort idna kind s = .ok (host, port, after)) :
    HostPort idna kind host port := by
  simp only [hostAndPort, bind_eq_ok_iff] at e
  obtain ⟨host', read, e⟩ := e
  split at e
  · cases e
    exact ⟨allowed_of_hostOf read, nofun, fun _ => rfl⟩
  · split at e
    · cases e
    · rename_i nonempty
      obtain ⟨⟨port', rest⟩, ported, e⟩ := bind_eq_ok_iff.mp e
      cases e
      exact ⟨allowed_of_hostOf read, port_of_splitPort ported, fun empty => absurd empty nonempty⟩

theorem hostChar_of_mem_portText (h : c ∈ portText port) : HostChar c := by
  cases port with
  | none => cases h
  | some n =>
      rcases List.mem_cons.mp h with rfl | digit
      · exact .inr (by simp)
      · have digit := Nat.isDigit_of_mem_toDigits (by decide) (by decide) digit
        exact .inl (Host.nameChar_of_isAlphanum (by simp [Char.isAlphanum, digit]))

theorem HostPort.hostChar (h : HostPort idna kind host port)
    (mem : c ∈ host.toChars ++ portText port) : HostChar c := by
  rcases List.mem_append.mp mem with mem | mem
  · exact h.allowed.written.mem_toChars mem
  · exact hostChar_of_mem_portText mem

theorem hostAndPort_toChars (h : HostPort idna kind host port) (ends : EndsHere after) :
    hostAndPort idna kind (host.toChars ++ portText port ++ after) = .ok (host, port, after) := by
  have inside : ∀ c ∈ host.toChars ++ portText port, (!endsAuthority kind c) = true := by
    intro c mem
    rw [endsAuthority_of_hostChar (h.hostChar mem)]
    rfl
  have stops := ends.stopsAt kind
  have split : splitHost false (host.toChars ++ portText port) = (host.toChars, portText port) := by
    refine h.allowed.written.splitHost ?_
    intro c mem
    cases port with
    | none => cases mem
    | some n =>
        obtain rfl : ':' = c := by simpa [portText] using mem
        rfl
  simp only [hostAndPort, takeWhile_append_of_stopsAt inside stops,
    dropWhile_append_of_stopsAt inside stops, split, hostOf_toChars h.allowed]
  cases port with
  | none => rfl
  | some n =>
      have filled : ¬host.isEmpty = true := fun empty => nomatch h.alone empty
      obtain ⟨le, other⟩ := h.bound rfl
      simp only [portText, bind_eq_ok_iff]
      refine ⟨host, rfl, ?_⟩
      rw [if_neg filled, splitPort_toDigits le other ends]
      rfl

/-! Authorities. -/

/-- An authority that stays as it is. -/
structure Authority.Plain (idna : Idna) (kind : SchemeKind) (a : Authority) : Prop where
  username : Clean .userinfo a.username
  password : ∀ password, a.password = some password → password ≠ [] ∧ Clean .userinfo password
  hostPort : HostPort idna kind a.host a.port
  alone : a.host.isEmpty = true → a.username = [] ∧ a.password = none

theorem plain_of_authorityOf (e : authorityOf idna kind s = .ok (a, after)) :
    a.Plain idna kind := by
  simp only [authorityOf] at e
  split at e
  · obtain ⟨⟨host, port, rest⟩, read, e⟩ := bind_eq_ok_iff.mp e
    cases e
    exact ⟨nofun, nofun, hostPort_of_hostAndPort read, fun _ => ⟨rfl, rfl⟩⟩
  · split at e
    · cases e
    · rename_i info afterAt _ _
      obtain ⟨⟨host, port, rest⟩, read, e⟩ := bind_eq_ok_iff.mp e
      split at e
      · cases e
      · rename_i alone
        cases e
        obtain ⟨username, password⟩ := clean_credentialsOf info
        refine ⟨username, password, hostPort_of_hostAndPort read, fun hostless => ?_⟩
        obtain ⟨anonymous, secret⟩ := not_or.mp fun nonempty => alone ⟨hostless, nonempty⟩
        exact ⟨not_not.mp anonymous, by simpa using secret⟩

theorem Authority.anonymous_of_info (a : Authority) (h : a.info = []) :
    a.username = [] ∧ a.password = none := by
  unfold info at h
  split at h
  · exact absurd h (by simp)
  · rename_i e
    exact ⟨h, e⟩

theorem Authority.Plain.hostChar (h : a.Plain idna kind) (mem : c ∈ a.info) : HostChar c := by
  have named {s : List Char} (clean : Clean .userinfo s) (mem : c ∈ s) : HostChar c :=
    .inl (nameChar_of_userinfo (clean c mem))
  unfold info at mem
  split at mem
  · rename_i password e
    rcases List.mem_append.mp mem with mem | mem
    · exact named h.username mem
    · rcases List.mem_cons.mp mem with rfl | mem
      · exact .inr (by simp)
      · exact named (h.password password e).2 mem
  · exact named h.username mem

theorem Authority.Plain.credentialsOf_info (h : a.Plain idna kind) :
    credentialsOf a.info = (a.username, a.password) := by
  have inside : ∀ c ∈ a.username, decide (c ≠ ':') = true := by
    intro c mem
    have free := (nameChar_of_userinfo (h.username c mem)).2
    simp only [List.mem_cons, not_or] at free
    exact decide_eq_true free.1
  unfold info
  split
  · rename_i password e
    obtain ⟨nonempty, clean⟩ := h.password password e
    have stops : StopsAt (fun c => decide (c ≠ ':')) (':' :: password) := by
      intro c mem
      obtain rfl : ':' = c := by simpa using mem
      rfl
    obtain ⟨first, more, rfl⟩ := List.exists_cons_of_ne_nil nonempty
    rw [credentialsOf, takeWhile_append_of_stopsAt inside stops,
      dropWhile_append_of_stopsAt inside stops, percentEncode_of_clean h.username]
    simp only [percentEncode_of_clean clean, e]
  · rename_i e
    have username := takeWhile_append_of_stopsAt (t := []) inside nofun
    have rest := dropWhile_append_of_stopsAt (t := []) inside nofun
    rw [List.append_nil] at username rest
    rw [credentialsOf, username, rest, percentEncode_of_clean h.username, e]

theorem Authority.toChars_eq (a : Authority) :
    a.toChars = a.credentials ++ (a.host.toChars ++ portText a.port) := by
  rw [← List.append_assoc]
  rfl

theorem Authority.Plain.mem_toChars (h : a.Plain idna kind) (mem : c ∈ a.toChars) :
    HostChar c ∨ c = '@' := by
  rw [a.toChars_eq, a.credentials_eq] at mem
  rcases List.mem_append.mp mem with mem | mem
  · split at mem
    · cases mem
    · rcases List.mem_append.mp mem with mem | mem
      · exact .inl (h.hostChar mem)
      · exact .inr (List.mem_singleton.mp mem)
  · exact .inl (h.hostPort.hostChar mem)

theorem Authority.Plain.toChars_ne_nil (h : a.Plain idna kind) (special : kind ≠ .general) :
    a.toChars ≠ [] := by
  intro empty
  have allowed := h.hostPort.allowed
  rw [Host.Allowed, if_neg special] at allowed
  rw [a.toChars_eq] at empty
  exact allowed.toChars_ne_nil (List.append_eq_nil_iff.mp (List.append_eq_nil_iff.mp empty).2).1

theorem authorityOf_toChars (h : a.Plain idna kind) (ends : EndsHere after) :
    authorityOf idna kind (a.toChars ++ after) = .ok (a, after) := by
  have stops := ends.stopsAt kind
  have hostChars : ∀ c ∈ a.host.toChars ++ portText a.port, (!endsAuthority kind c) = true := by
    intro c mem
    rw [endsAuthority_of_hostChar (h.hostPort.hostChar mem)]
    rfl
  have unmarked : '@' ∉ a.host.toChars ++ portText a.port := by
    intro mem
    exact absurd (h.hostPort.hostChar mem) (by decide)
  rw [a.toChars_eq, a.credentials_eq]
  by_cases plain : a.info = []
  · have anonymous := a.anonymous_of_info plain
    rw [if_pos plain, List.nil_append, authorityOf]
    simp only [takeWhile_append_of_stopsAt hostChars stops, splitLastAt_of_not_mem unmarked,
      hostAndPort_toChars h.hostPort ends, ← anonymous.1, ← anonymous.2]
    rfl
  · have inside : ∀ c ∈ a.info ++ '@' :: (a.host.toChars ++ portText a.port),
        (!endsAuthority kind c) = true := by
      intro c mem
      rcases List.mem_append.mp mem with mem | mem
      · rw [endsAuthority_of_hostChar (h.hostChar mem)]
        rfl
      · rcases List.mem_cons.mp mem with rfl | mem
        · cases kind <;> rfl
        · exact hostChars c mem
    have text : a.info ++ ['@'] ++ (a.host.toChars ++ portText a.port) =
        a.info ++ '@' :: (a.host.toChars ++ portText a.port) := by simp
    rw [if_neg plain, text, authorityOf]
    simp only [takeWhile_append_of_stopsAt inside stops, dropWhile_append_of_stopsAt inside stops,
      splitLastAt_append unmarked, h.credentialsOf_info, hostAndPort_toChars h.hostPort ends]
    have alone : ¬(a.host.isEmpty = true ∧ (a.username ≠ [] ∨ a.password.isSome = true)) := by
      intro ⟨empty, nonempty⟩
      obtain ⟨anonymous, secret⟩ := h.alone empty
      simp [anonymous, secret] at nonempty
    rw [if_neg fun bad => plain bad.1]
    exact if_neg alone

end InDoubt.Locator
