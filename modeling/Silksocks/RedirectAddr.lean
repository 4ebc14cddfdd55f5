import Mathlib.Data.List.TakeWhile
import Silksocks.Socks

/-! Which logins `strip_redirectaddr` takes for user-ip-port.  It cuts the address off behind 15
bytes and the port behind 5, skips doubled separators, and does not look behind the third field, so
that some strings of another form are accepted and name a destination that they do not contain. -/

namespace Silksocks

/-! ### Decimal numbers -/

/-- The value of a string of decimal digits. -/
def decimal (ds : List UInt8) : Nat := ds.foldl (fun n c => n * 10 + (digit? c).getD 0) 0

/-- Every byte is a decimal digit. -/
def Digits (ds : List UInt8) : Prop := ∀ c ∈ ds, (digit? c).isSome = true

section Decimal

variable {ds : List UInt8}

theorem foldl_decimal (ds : List UInt8) (n : Nat) :
    ds.foldl (fun n c => n * 10 + (digit? c).getD 0) n = n * 10 ^ ds.length + decimal ds := by
  induction ds generalizing n with
  | nil => simp [decimal]
  | cons c ds ih =>
    rw [decimal, List.foldl_cons, List.foldl_cons, ih, ih, List.length_cons, Nat.pow_succ]
    rw [Nat.add_mul, Nat.zero_mul, Nat.zero_add, Nat.mul_assoc, Nat.mul_comm 10, Nat.add_assoc]

theorem decimal_append (ds es : List UInt8) :
    decimal (ds ++ es) = decimal ds * 10 ^ es.length + decimal es := by
  rw [decimal, List.foldl_append, foldl_decimal]
  rfl

theorem decimal_cons (c : UInt8) :
    decimal (c :: ds) = (digit? c).getD 0 * 10 ^ ds.length + decimal ds := by
  rw [decimal, List.foldl_cons, foldl_decimal, Nat.zero_mul, Nat.zero_add]

theorem decimal_eq_zero (h : Digits ds) : decimal ds = 0 ↔ ∀ c ∈ ds, c = 48 := by
  induction ds with
  | nil => simp [decimal]
  | cons c ds ih =>
    have hdigits : Digits ds := fun d hd => h d (List.mem_cons_of_mem c hd)
    have hc := h c List.mem_cons_self
    have hzero : (digit? c).getD 0 = 0 ↔ c = 48 := by
      unfold digit? at hc ⊢
      split at hc
      · rename_i hrange
        rw [if_pos hrange, ← UInt8.toNat_inj]
        have := UInt8.le_iff_toNat_le.mp hrange.1
        simp only [Option.getD_some, UInt8.reduceToNat] at this ⊢
        omega
      · cases hc
    rw [decimal_cons, Nat.add_eq_zero_iff, Nat.mul_eq_zero, ih hdigits, hzero]
    simp

/-- A number has the value of its first digits if nothing follows them, or if all is zero. -/
theorem decimal_take {n : Nat} (h : Digits ds) :
    decimal (ds.take n) = decimal ds ↔ ds.length ≤ n ∨ ∀ c ∈ ds, c = 48 := by
  rcases Nat.lt_or_ge n ds.length with hlt | hle
  · have hsplit := decimal_append (ds.take n) (ds.drop n)
    rw [List.take_append_drop] at hsplit
    have hpow : 10 ≤ 10 ^ (ds.drop n).length := by
      refine Nat.le_self_pow ?_ 10
      rw [List.length_drop]
      omega
    rw [← decimal_eq_zero h]
    have hmul := Nat.mul_le_mul_left (decimal (ds.take n)) hpow
    constructor
    · intro heq
      right
      omega
    · rintro (hlen | hzero)
      · omega
      · omega
  · simp [List.take_of_length_le hle, hle]

theorem digit_not_space {c : UInt8} (h : (digit? c).isSome = true) :
    isspace c = false ∧ c ≠ 45 ∧ c ≠ 43 := by
  unfold digit? at h
  split at h
  · rename_i hrange
    have hge := UInt8.le_iff_toNat_le.mp hrange.1
    simp only [isspace, ne_eq, ← UInt8.toNat_inj, UInt8.le_iff_toNat_le, UInt8.reduceToNat] at hge ⊢
    refine ⟨?_, by omega, by omega⟩
    simp
    omega
  · cases h

theorem foldl_int_decimal (ds : List UInt8) (n : Nat) :
    ds.foldl (fun (n : Int) c => n * 10 + ((digit? c).getD 0 : Nat)) n =
      ((ds.foldl (fun n c => n * 10 + (digit? c).getD 0) n : Nat) : Int) := by
  induction ds generalizing n with
  | nil => rfl
  | cons c ds ih =>
    rw [List.foldl_cons, List.foldl_cons, ← ih]
    rfl

theorem strtol_digits (h : Digits ds) (hne : ds ≠ []) : strtol ds = ((decimal ds : Int), []) := by
  have htake : ds.takeWhile (fun c => (digit? c).isSome) = ds := List.takeWhile_eq_self_iff.mpr h
  have hdrop : ds.dropWhile (fun c => (digit? c).isSome) = [] := List.dropWhile_eq_nil_iff.mpr h
  cases ds with
  | nil => exact absurd rfl hne
  | cons c ds =>
    obtain ⟨hspace, hminus, hplus⟩ := digit_not_space (h c List.mem_cons_self)
    have hbody : (c :: ds).dropWhile isspace = c :: ds := by
      rw [List.dropWhile_cons, hspace]
      rfl
    unfold strtol
    rw [hbody]
    dsimp only
    split
    · rename_i heq
      exact absurd (List.cons.inj heq).1 hminus
    · rename_i heq
      exact absurd (List.cons.inj heq).1 hplus
    · rw [htake, hdrop, if_neg hne, decimal, ← foldl_int_decimal]
      rfl

end Decimal

/-! ### Addresses -/

/-- How many more digits fit an octet whose digits so far have the value `current`. -/
def octetRoom : Option Nat → Nat
  | none => 3
  | some n => if n = 0 then 0 else if n < 10 then 2 else if n < 26 then 1 else 0

theorem digit_lt {c : UInt8} {d : Nat} (h : digit? c = some d) : d < 10 := by
  unfold digit? at h
  split at h
  · rename_i hrange
    cases h
    have := UInt8.le_iff_toNat_le.mp hrange.2
    simp only [UInt8.reduceToNat] at this
    omega
  · cases h

theorem octetRoom_digit {d : Nat} (h : d < 10) : octetRoom (some d) ≤ 2 := by
  simp only [octetRoom]
  split_ifs <;> omega

theorem octetRoom_next {n d : Nat} (h : ¬ (n = 0 ∨ 255 < n * 10 + d)) :
    octetRoom (some (n * 10 + d)) + 1 ≤ octetRoom (some n) := by
  simp only [octetRoom]
  split_ifs <;> omega

/-- What `inet_pton` accepts has no separator and at most 15 bytes. -/
theorem inetPtonLoop_text {s octets addr : List UInt8} {current : Option Nat}
    (hoctets : octets.length ≤ 3) (h : inetPtonLoop s octets current = some addr) :
    dash ∉ s ∧ s.length ≤ 4 * (3 - octets.length) + octetRoom current := by
  induction s generalizing octets current with
  | nil => exact ⟨by simp, Nat.zero_le _⟩
  | cons c cs ih =>
    unfold inetPtonLoop at h
    have hdash : digit? dash = none := by decide
    rw [List.mem_cons, not_or, List.length_cons]
    split at h
    · rename_i d hd
      obtain ⟨hno, hlen⟩ := ih hoctets h
      have := octetRoom_digit (digit_lt hd)
      refine ⟨⟨?_, hno⟩, ?_⟩
      · rintro rfl
        simp [hdash] at hd
      · show cs.length + 1 ≤ 4 * (3 - octets.length) + 3
        omega
    · rename_i d n hd
      split at h
      · cases h
      rename_i hn
      obtain ⟨hno, hlen⟩ := ih hoctets h
      have := octetRoom_next hn
      refine ⟨⟨?_, hno⟩, by omega⟩
      rintro rfl
      simp [hdash] at hd
    · rename_i n hd
      split at h
      · rename_i hdot
        have hoctets' : (octets ++ [UInt8.ofNat n]).length = octets.length + 1 := by simp
        obtain ⟨hno, hlen⟩ := ih (by omega) h
        rw [hoctets'] at hlen
        have hroom : octetRoom none = 3 := rfl
        refine ⟨⟨?_, hno⟩, by omega⟩
        rw [hdot.1]
        decide
      · cases h
    · cases h

theorem inetPton_text {s addr : List UInt8} (h : inetPton s = some addr) :
    dash ∉ s ∧ s ≠ [] ∧ s.length ≤ 15 := by
  have hempty : ([] : List UInt8).length ≤ 3 := Nat.zero_le 3
  obtain ⟨hno, hlen⟩ := inetPtonLoop_text hempty h
  refine ⟨hno, ?_, hlen⟩
  rintro rfl
  cases h

/-! ### Fields -/

section Strtok

variable {s tok rest : List UInt8}

theorem token_ne_dash (hno : dash ∉ tok) : ∀ c ∈ tok, (decide (c ≠ dash)) = true := by
  intro c hc
  have hcd : c ≠ dash := fun heq => hno (heq ▸ hc)
  simpa using hcd

/-- Nothing of a token is skipped. -/
theorem strtok_append (hne : tok ≠ []) (hno : dash ∉ tok) (r : List UInt8) :
    strtok (tok ++ r) = some ((tok ++ r).takeWhile (· ≠ dash),
      ((tok ++ r).dropWhile (· ≠ dash)).drop 1) := by
  cases tok with
  | nil => exact absurd rfl hne
  | cons c cs =>
    have hc := token_ne_dash hno c List.mem_cons_self
    unfold strtok
    rw [List.cons_append, List.dropWhile_cons_of_neg (by simpa using hc)]

theorem strtok_token (hne : tok ≠ []) (hno : dash ∉ tok) :
    strtok (tok ++ dash :: rest) = some (tok, rest) := by
  have hall := token_ne_dash hno
  rw [strtok_append hne hno, List.takeWhile_append_of_pos hall, List.dropWhile_append_of_pos hall]
  simp

theorem strtok_last (hne : tok ≠ []) (hno : dash ∉ tok) : strtok tok = some (tok, []) := by
  have hall := token_ne_dash hno
  have hlast := strtok_append hne hno []
  rwa [List.append_nil, List.takeWhile_eq_self_iff.mpr hall,
    List.dropWhile_eq_nil_iff.mpr hall] at hlast

theorem token_of_strtok (h : strtok s = some (tok, rest)) : tok ≠ [] ∧ dash ∉ tok := by
  unfold strtok at h
  split at h
  · cases h
  rename_i c cs hdrop
  cases h
  have hc : c ≠ dash := by
    have hhead := List.head_dropWhile_not (· = dash) (l := s) (by simp [hdrop])
    simpa [hdrop] using hhead
  refine ⟨by simp [hc], fun hmem => ?_⟩
  simpa using List.mem_takeWhile_imp hmem

end Strtok

/-- The three fields that `strip_redirectaddr` reads, and that it takes them for an address and a
port. -/
structure Fields (s user ip port : List UInt8) : Prop where
  tokens : ∃ s1 s2 s3, strtok s = some (user, s1) ∧ strtok s1 = some (ip, s2) ∧
    strtok s2 = some (port, s3)
  ip : inetPton (ip.take 15) ≠ none
  port : (strtol (port.take 5)).2 = []

theorem stripRedirectaddr_accepts {client : Socks5Cli} {user ip port addr : List UInt8}
    (h : Fields client.user user ip port) (haddr : inetPton (ip.take 15) = some addr) :
    stripRedirectaddr client = (0,
      { client with
        user := client.user.takeWhile (· = dash) ++ user
        srvpeer := ⟨.inet, addr, htons (UInt16.ofInt (strtol (port.take 5)).1)⟩ }) := by
  obtain ⟨s1, s2, s3, h1, h2, h3⟩ := h.tokens
  simp [stripRedirectaddr, h1, h2, h3, haddr, h.port]

theorem stripRedirectaddr_fields {client : Socks5Cli} (h : (stripRedirectaddr client).1 = 0) :
    ∃ user ip port, Fields client.user user ip port := by
  unfold stripRedirectaddr at h
  dsimp only at h
  split at h
  · cases h
  rename_i user s1 h1
  split at h
  · cases h
  rename_i ip s2 h2
  split at h
  · cases h
  rename_i port s3 h3
  split at h
  · cases h
  rename_i addr haddr
  split at h
  · cases h
  rename_i hport
  exact ⟨user, ip, port, ⟨s1, s2, s3, h1, h2, h3⟩, by simp [haddr], not_not.mp hport⟩

theorem Fields.unique {s user ip port user' ip' port' : List UInt8} (h : Fields s user ip port)
    (h' : Fields s user' ip' port') : user = user' ∧ ip = ip' ∧ port = port' := by
  obtain ⟨s1, s2, s3, h1, h2, h3⟩ := h.tokens
  obtain ⟨s1', s2', s3', h1', h2', h3'⟩ := h'.tokens
  cases h1.symm.trans h1'
  cases h2.symm.trans h2'
  cases h3.symm.trans h3'
  exact ⟨rfl, rfl, rfl⟩

theorem ntohs_htons (n : UInt16) : ntohs (htons n) = n := by
  have h := n.toNat_lt
  rw [← UInt16.toNat_inj, ntohs, htons, bigEndian]
  simp
  omega

/-! ### The login -/

/-- `s` is user-ip-port. -/
structure Login (s user ip port : List UInt8) : Prop where
  text : s = user ++ dash :: (ip ++ dash :: port)
  user_ne : user ≠ []
  user_text : dash ∉ user
  ip : inetPton ip ≠ none
  port_ne : port ≠ []
  port_text : Digits port
  range : decimal port ≤ 65535

/-- `strip_redirectaddr` accepts exactly user-ip-port, and stores these fields. -/
structure RedirectCorrect (client : Socks5Cli) : Prop where
  accepts : (stripRedirectaddr client).1 = 0 ↔ ∃ user ip port, Login client.user user ip port
  stores : (stripRedirectaddr client).1 = 0 → ∀ user ip port, Login client.user user ip port →
    (stripRedirectaddr client).2.user = user ∧
      inetPton ip = some (stripRedirectaddr client).2.srvpeer.addr ∧
      (ntohs (stripRedirectaddr client).2.srvpeer.port).toNat = decimal port

/-- What the fields of a string that is accepted may lack. -/
inductive Cut (s user ip port : List UInt8) : Prop
  /-- A separator in front of the user, twice between two fields, or behind the port. -/
  | separators (h : s ≠ user ++ dash :: (ip ++ dash :: port))
  /-- An address of more than 15 bytes. -/
  | address (h : 15 < ip.length)
  /-- A space or a sign in front of the port, or something else behind its fifth byte. -/
  | digits (h : ¬ Digits port)
  /-- Five digits that are no port. -/
  | range (h : 65535 < decimal (port.take 5))
  /-- More than five digits, unless all are zero. -/
  | long (h : 5 < port.length) (hne : ∃ c ∈ port, c ≠ 48)

/-- The logins that `strip_redirectaddr` accepts with a field cut off or passed over. -/
def RedirectMisread (s : List UInt8) : Prop :=
  ∃ user ip port, Fields s user ip port ∧ Cut s user ip port

theorem Digits.no_dash {ds : List UInt8} (h : Digits ds) : dash ∉ ds := by
  intro hmem
  have := h dash hmem
  simp [digit?, dash] at this

theorem Digits.take {ds : List UInt8} (h : Digits ds) (n : Nat) : Digits (ds.take n) :=
  fun c hc => h c (List.mem_of_mem_take hc)

section Redirect

variable {client : Socks5Cli} {s user ip port : List UInt8}

theorem Login.cut_ip (h : Login s user ip port) : ip.take 15 = ip ∧ dash ∉ ip ∧ ip ≠ [] := by
  obtain ⟨addr, haddr⟩ := Option.ne_none_iff_exists'.mp h.ip
  obtain ⟨hno, hne, hlen⟩ := inetPton_text haddr
  exact ⟨List.take_of_length_le hlen, hno, hne⟩

theorem strtol_port (hport : Digits port) (hne : port ≠ []) :
    strtol (port.take 5) = ((decimal (port.take 5) : Int), []) := by
  apply strtol_digits (hport.take 5)
  simp [hne]

theorem Login.fields (h : Login s user ip port) : Fields s user ip port := by
  obtain ⟨htake, hno, hne⟩ := h.cut_ip
  refine ⟨⟨_, _, _, ?_, strtok_token hne hno, strtok_last h.port_ne h.port_text.no_dash⟩, ?_, ?_⟩
  · rw [h.text]
    exact strtok_token h.user_ne h.user_text
  · rw [htake]
    exact h.ip
  · rw [strtol_port h.port_text h.port_ne]

theorem decimal_take_le (port : List UInt8) (n : Nat) : decimal (port.take n) ≤ decimal port := by
  have hsplit := decimal_append (port.take n) (port.drop n)
  rw [List.take_append_drop] at hsplit
  rw [hsplit]
  exact Nat.le_trans (Nat.le_mul_of_pos_right _ (Nat.pow_pos (by decide))) (Nat.le_add_right _ _)

theorem Login.stored (h : Login client.user user ip port) :
    (stripRedirectaddr client).1 = 0 ∧ (stripRedirectaddr client).2.user = user ∧
      inetPton ip = some (stripRedirectaddr client).2.srvpeer.addr ∧
      (ntohs (stripRedirectaddr client).2.srvpeer.port).toNat = decimal (port.take 5) := by
  obtain ⟨addr, haddr⟩ := Option.ne_none_iff_exists'.mp h.ip
  have htake := h.cut_ip.1
  rw [stripRedirectaddr_accepts h.fields (by rw [htake]; exact haddr)]
  refine ⟨rfl, ?_, haddr, ?_⟩
  · show client.user.takeWhile (· = dash) ++ user = user
    have hhead := h.user_text
    rw [h.text]
    cases user with
    | nil => exact absurd rfl h.user_ne
    | cons c cs =>
      have hc : c ≠ dash := fun heq => hhead (heq ▸ List.mem_cons_self)
      simp [hc]
  · have hle := Nat.le_trans (decimal_take_le port 5) h.range
    show (ntohs (htons (UInt16.ofInt (strtol (port.take 5)).1))).toNat = _
    rw [ntohs_htons, strtol_port h.port_text h.port_ne]
    simp [UInt16.ofInt]
    omega

/-- What is accepted without a cut is a login. -/
theorem Fields.login (h : Fields s user ip port) (hcut : ¬ Cut s user ip port) :
    Login s user ip port := by
  obtain ⟨s1, s2, s3, h1, h2, h3⟩ := h.tokens
  have hlen : ¬ 15 < ip.length := fun hip => hcut (.address hip)
  have hdigits : Digits port := by_contra fun hd => hcut (.digits hd)
  have hshort : port.length ≤ 5 ∨ ∀ c ∈ port, c = 48 := by
    by_contra hlong
    simp only [not_or, not_le, not_forall, exists_prop] at hlong
    exact hcut (.long hlong.1 hlong.2)
  have hip := h.ip
  rw [List.take_of_length_le (by omega)] at hip
  refine ⟨by_contra fun htext => hcut (.separators htext), (token_of_strtok h1).1,
    (token_of_strtok h1).2, hip, (token_of_strtok h3).1, hdigits, ?_⟩
  rw [← (decimal_take hdigits).mpr hshort]
  exact Nat.le_of_not_lt fun hrange => hcut (.range hrange)

end Redirect

/-- `strip_redirectaddr` is correct for exactly the strings that it does not accept with a field cut
off or passed over. -/
theorem stripRedirectaddr_correct_iff (client : Socks5Cli) :
    RedirectCorrect client ↔ ¬ RedirectMisread client.user := by
  constructor
  · rintro hcorrect ⟨user, ip, port, hfields, hcut⟩
    obtain ⟨addr, haddr⟩ := Option.ne_none_iff_exists'.mp hfields.ip
    have hzero : (stripRedirectaddr client).1 = 0 := by
      rw [stripRedirectaddr_accepts hfields haddr]
    obtain ⟨user', ip', port', hlogin⟩ := hcorrect.accepts.mp hzero
    obtain ⟨rfl, rfl, rfl⟩ := hfields.unique hlogin.fields
    cases hcut with
    | separators h => exact h hlogin.text
    | address h =>
      have := hlogin.cut_ip.1
      have := congrArg List.length this
      simp only [List.length_take] at this
      omega
    | digits h => exact h hlogin.port_text
    | range h =>
      have := decimal_take_le port 5
      have := hlogin.range
      omega
    | long h hne =>
      have hport := (hcorrect.stores hzero user ip port hlogin).2.2
      rw [hlogin.stored.2.2.2] at hport
      rcases (decimal_take hlogin.port_text).mp hport with hlen | hzeros
      · omega
      · obtain ⟨c, hc, hc'⟩ := hne
        exact hc' (hzeros c hc)
  · intro hmis
    refine ⟨⟨fun hzero => ?_, fun ⟨user, ip, port, hlogin⟩ => hlogin.stored.1⟩, ?_⟩
    · obtain ⟨user, ip, port, hfields⟩ := stripRedirectaddr_fields hzero
      exact ⟨user, ip, port, hfields.login fun hcut => hmis ⟨user, ip, port, hfields, hcut⟩⟩
    · intro _ user ip port hlogin
      obtain ⟨-, huser, haddr, hport⟩ := hlogin.stored
      refine ⟨huser, haddr, hport.trans ((decimal_take hlogin.port_text).mpr ?_)⟩
      by_contra hlong
      simp only [not_or, not_le, not_forall, exists_prop] at hlong
      exact hmis ⟨user, ip, port, hlogin.fields, .long hlong.1 hlong.2⟩

/-- The client of a session with the login `u-10.0.0.1-123456`. -/
def longPort : Socks5Cli :=
  { Socks5Cli.start 4 with
    user := [117, 45, 49, 48, 46, 48, 46, 48, 46, 49, 45, 49, 50, 51, 52, 53, 54] }

/-- The sixth digit of the port is cut off, and the session goes to port 12345. -/
theorem longPort_misread :
    (0 ∉ longPort.user ∧ longPort.user.length ≤ 255) ∧ stripRedirectaddr longPort =
      (0, { longPort with user := [117], srvpeer := ⟨.inet, [10, 0, 0, 1], htons 12345⟩ }) ∧
      ¬ RedirectCorrect longPort := by
  have hstrip : stripRedirectaddr longPort =
      (0, { longPort with user := [117], srvpeer := ⟨.inet, [10, 0, 0, 1], htons 12345⟩ }) := by
    decide
  refine ⟨by decide, hstrip, fun h => ?_⟩
  obtain ⟨user, ip, port, hlogin⟩ := h.accepts.mp (by rw [hstrip])
  have hfields : Fields longPort.user [117] [49, 48, 46, 48, 46, 48, 46, 49]
      [49, 50, 51, 52, 53, 54] := ⟨⟨_, _, _, rfl, rfl, rfl⟩, by decide, by decide⟩
  obtain ⟨-, -, rfl⟩ := hfields.unique hlogin.fields
  exact absurd hlogin.range (by decide)

end Silksocks
