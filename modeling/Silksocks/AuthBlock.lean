import Silksocks.ClientStream
import Silksocks.Lib.CheckedArray
import Silksocks.UpstreamHandshake

/-! The authentication message for an upstream proxy, as `socks5_connectproxy` puts it together in
an array of signed `char`s.  A length of 128 or more is read back from there as a negative
number. -/

namespace Silksocks

open Program Prog Contract CheckedArray

/-- The value of an `int` as a `size_t`. -/
def sizeT (n : Int) : Nat := (UInt64.ofInt n).toNat

/-- The block "proxy authenticate" of `socks5_connectproxy`: `buf` and `n` before they are written,
or `none` for an index outside of an array. -/
def authBlock (creds : Creds) (buf : Vector UInt8 512) : Option (Vector UInt8 512 × Int) := do
  let n : Int := 0
  let buf ← store buf n 0x01
  let n := n + 1
  let buf ← store buf n (UInt8.ofNat creds.user.length)
  let n := n + 1
  let len ← load buf (n - 1)
  let buf ← memcpy buf n creds.user (sizeT (schar len))
  let len ← load buf 1
  let n := n + schar len
  let buf ← store buf n (UInt8.ofNat creds.passwd.length)
  let n := n + 1
  let len ← load buf (n - 1)
  let buf ← memcpy buf n creds.passwd (sizeT (schar len))
  let len ← load buf (n - 1)
  return (buf, n + schar len)

/-- The first `n` bytes of `buf`. -/
def blockBytes (b : Vector UInt8 512 × Int) : List UInt8 := b.1.toList.take b.2.toNat

/-- These credentials have just been obtained. -/
def Obtained (creds : Creds) (t : List SessionEvent) : Prop :=
  ∃ t' key, t = t' ++ [⟨.cacheGetip key, some creds⟩] ∨ t = t' ++ [⟨.cachePutip key creds, ()⟩]

/-- `socks5_readauth` reads this login, and nothing behind it. -/
def Decodes (data user passwd : List UInt8) : Prop :=
  ∀ (ω : Type) (world : World ω) (client : Socks5Cli) (schedule : List Arrival)
    (rest : List UInt8) (w w' : ω), client.clientfd = world.clientfd → NoError schedule →
    world.answer (.writen client.clientfd [1, 0]) w = some (true, w') →
    ∃ v, world.run (socks5Readauth client) schedule (.start (data ++ rest) w) =
      some ((0, { client with user, passwd }), v) ∧ v.input = rest

/-- The message for these credentials is put together inside of the array, written to the socket that
is connected to the upstream, and understood. -/
structure AuthCorrect (creds : Creds) : Prop where
  block : ∀ buf, ∃ b, authBlock creds buf = some b ∧ (0 ≤ b.2 ∧ b.2 ≤ 512) ∧
    blockBytes b = loginBytes creds.user creds.passwd
  written : ∀ client t q, Runs (socks5Connectproxy client) t q → Obtained creds t →
    ∃ fd next, ConnectedUpstream client fd t ∧
      q = .call (.writen fd (loginBytes creds.user creds.passwd)) next
  decoded : Decodes (loginBytes creds.user creds.passwd) creds.user creds.passwd

/-! ### The block -/

section Block

variable {creds : Creds} {buf : Vector UInt8 512}

theorem schar_ofNat {n : Nat} (h : n ≤ 127) : schar (UInt8.ofNat n) = n := by
  have hlt : UInt8.ofNat n < 128 := by
    rw [UInt8.lt_iff_toNat_lt]
    simp
    omega
  rw [schar, if_pos hlt]
  simp
  omega

theorem sizeT_natCast {n : Nat} (h : n ≤ 127) : sizeT n = n := by
  rw [sizeT, UInt64.ofInt, UInt64.toNat_ofNat']
  omega

/-- A negative `char` is a size that no array has. -/
theorem lt_sizeT {n : Nat} (hlow : 127 < n) (hhigh : n ≤ 255) :
    512 < sizeT (schar (UInt8.ofNat n)) := by
  have hneg := (schar_neg n).mpr (by omega)
  have hge : -128 ≤ schar (UInt8.ofNat n) := by
    unfold schar
    split
    · omega
    · rename_i hlt
      rw [UInt8.lt_iff_toNat_lt] at hlt
      simp at hlt ⊢
      omega
  rw [sizeT, UInt64.ofInt, UInt64.toNat_ofNat']
  omega

/-- The length byte and the bytes of a string, up to whose length a `char` is not negative. -/
theorem store_field {b : Vector UInt8 512} {as str : List UInt8} {n : Int} (h : Begins b as)
    (hn : n = as.length) (hstr : str.length ≤ 127) (hroom : as.length + 1 + str.length ≤ 512) :
    ∃ b1 b2, store b n (UInt8.ofNat str.length) = some b1 ∧
      load b1 n = some (UInt8.ofNat str.length) ∧
      memcpy b1 (n + 1) str (sizeT (schar (UInt8.ofNat str.length))) = some b2 ∧
      load b2 n = some (UInt8.ofNat str.length) ∧
      Begins b2 (as ++ UInt8.ofNat str.length :: str) := by
  subst hn
  obtain ⟨b1, hstore, h1⟩ := h.store (a := UInt8.ofNat str.length) (by omega)
  have hlen : (as ++ [UInt8.ofNat str.length]).length = as.length + 1 := List.length_append
  obtain ⟨b2, hcopy, h2⟩ := h1.memcpy (Nat.le_refl str.length) (by omega)
  rw [List.take_length, List.append_assoc, List.singleton_append] at h2
  rw [hlen, Int.natCast_add, Int.natCast_one] at hcopy
  refine ⟨b1, b2, hstore, h1.load, ?_, h2.load, h2⟩
  rwa [schar_ofNat hstr, sizeT_natCast hstr]

/-- The length byte of a longer string, of which then nothing can be copied. -/
theorem store_long_field {b : Vector UInt8 512} {as str : List UInt8} {n : Int} (h : Begins b as)
    (hn : n = as.length) (hlow : 127 < str.length) (hhigh : str.length ≤ 255)
    (hroom : as.length < 512) :
    ∃ b1, store b n (UInt8.ofNat str.length) = some b1 ∧
      load b1 n = some (UInt8.ofNat str.length) ∧
      memcpy b1 (n + 1) str (sizeT (schar (UInt8.ofNat str.length))) = none := by
  subst hn
  obtain ⟨b1, hstore, h1⟩ := h.store (a := UInt8.ofNat str.length) hroom
  exact ⟨b1, hstore, h1.load, memcpy_of_lt (lt_sizeT hlow hhigh)⟩

/-- Lengths up to 127 are read back as they are. -/
theorem authBlock_short (hu : creds.user.length ≤ 127) (hp : creds.passwd.length ≤ 127)
    (buf : Vector UInt8 512) :
    ∃ buf', authBlock creds buf =
        some (buf', ((loginBytes creds.user creds.passwd).length : Int)) ∧
      Begins buf' (loginBytes creds.user creds.passwd) := by
  obtain ⟨b0, h0, hb0⟩ := (begins_nil buf).store (a := 1) (by decide)
  rw [List.nil_append] at hb0
  obtain ⟨b1, b2, hstore1, hload1, hcopy1, hload2, hb2⟩ :=
    store_field (n := 1) hb0 rfl hu (by simp; omega)
  have hn : (1 + 1 + schar (UInt8.ofNat creds.user.length) : Int) =
      ([1] ++ UInt8.ofNat creds.user.length :: creds.user).length := by
    rw [schar_ofNat hu]
    simp
    omega
  obtain ⟨b3, b4, hstore3, hload3, hcopy3, hload4, hb4⟩ :=
    store_field hb2 hn hp (by simp; omega)
  refine ⟨b4, ?_, by simpa [loginBytes] using hb4⟩
  have hlen : (1 + 1 + schar (UInt8.ofNat creds.user.length) + 1 +
      schar (UInt8.ofNat creds.passwd.length) : Int) =
        (loginBytes creds.user creds.passwd).length := by
    rw [schar_ofNat hu, schar_ofNat hp]
    simp [loginBytes]
    omega
  rw [← hlen]
  have h0 : store buf 0 1 = some b0 := h0
  simp only [authBlock, Option.bind_eq_bind, Int.zero_add, Int.add_sub_cancel, h0, hstore1, hload1,
    hcopy1, hload2, hstore3, hload3, hcopy3, hload4, Option.bind_some, Option.pure_def]

/-- Longer ones are read back as sizes that no array has. -/
theorem authBlock_long (hu : creds.user.length ≤ 255) (hp : creds.passwd.length ≤ 255)
    (h : ¬ (creds.user.length ≤ 127 ∧ creds.passwd.length ≤ 127)) (buf : Vector UInt8 512) :
    authBlock creds buf = none := by
  obtain ⟨b0, h0, hb0⟩ := (begins_nil buf).store (a := 1) (by decide)
  rw [List.nil_append] at hb0
  have h0 : store buf 0 1 = some b0 := h0
  by_cases hshort : creds.user.length ≤ 127
  · obtain ⟨b1, b2, hstore1, hload1, hcopy1, hload2, hb2⟩ :=
      store_field (n := 1) hb0 rfl hshort (by simp; omega)
    have hn : (1 + 1 + schar (UInt8.ofNat creds.user.length) : Int) =
        ([1] ++ UInt8.ofNat creds.user.length :: creds.user).length := by
      rw [schar_ofNat hshort]
      simp
      omega
    obtain ⟨b3, hstore3, hload3, hcopy3⟩ :=
      store_long_field hb2 hn (by omega) hp (by simp; omega)
    simp only [authBlock, Option.bind_eq_bind, Int.zero_add, Int.add_sub_cancel, h0, hstore1,
      hload1, hcopy1, hload2, hstore3, hload3, hcopy3, Option.bind_some, Option.bind_none]
  · obtain ⟨b1, hstore1, hload1, hcopy1⟩ :=
      store_long_field (n := 1) hb0 rfl (by omega) hu (by simp)
    simp only [authBlock, Option.bind_eq_bind, Int.zero_add, Int.add_sub_cancel, h0, hstore1,
      hload1, hcopy1, Option.bind_some, Option.bind_none]

/-- The block puts together what the session writes. -/
theorem authBlock_message (hu : creds.user.length ≤ 255) (hp : creds.passwd.length ≤ 255)
    (buf : Vector UInt8 512) : (authBlock creds buf).map blockBytes = authMessage creds := by
  by_cases h : creds.user.length ≤ 127 ∧ creds.passwd.length ≤ 127
  · obtain ⟨buf', hblock, hbuf'⟩ := authBlock_short h.1 h.2 buf
    have hlong : ¬ creds.Long := by
      unfold Creds.Long
      omega
    obtain ⟨data, hdata⟩ := Option.ne_none_iff_exists'.mp (mt authMessage_none.mp hlong)
    rw [hblock, hdata, authMessage_eq (by omega) (by omega) hdata]
    exact congrArg some hbuf'.take_toList
  · rw [authBlock_long hu hp h, Option.map_none, eq_comm, authMessage_none]
    unfold Creds.Long
    omega

end Block

/-! ### What the session writes -/

/-- The contract that the login is written to the upstream as soon as the credentials have been
obtained. -/
abbrev writesLogin (client : Socks5Cli) (creds : Creds) :
    Contract (List SessionEvent) Call.Result :=
  history (fun before c => Obtained creds before → ∃ fd, ConnectedUpstream client fd before ∧
    c = .writen fd (loginBytes creds.user creds.passwd)) fun _ => True

section Written

variable {α : Type} {client : Socks5Cli} {creds : Creds} {t : List SessionEvent}

theorem not_obtained_nil : ¬ Obtained creds [] := by
  simp [Obtained]

theorem obtained_snoc {e : SessionEvent} : Obtained creds (t ++ [e]) ↔
    (∃ key, e = ⟨.cacheGetip key, some creds⟩) ∨ ∃ key, e = ⟨.cachePutip key creds, ()⟩ := by
  constructor
  · rintro ⟨t', key, heq | heq⟩
    · exact .inl ⟨key, List.singleton_inj.mp (List.append_inj' heq rfl).2⟩
    · exact .inr ⟨key, List.singleton_inj.mp (List.append_inj' heq rfl).2⟩
  · rintro (⟨key, rfl⟩ | ⟨key, rfl⟩)
    · exact ⟨t, key, .inl rfl⟩
    · exact ⟨t, key, .inr rfl⟩

theorem not_obtained_of_other {e : SessionEvent} (h : ¬ e.call.LooksUpProxy) :
    ¬ Obtained creds (t ++ [e]) := by
  rw [obtained_snoc]
  rintro (⟨key, rfl⟩ | ⟨key, rfl⟩) <;> exact h trivial

/-- A call that is made where no credentials have just been obtained. -/
theorem writesLogin_call {c : Call} {next : c.Result → Session α}
    {Q : List SessionEvent → α → Prop} (ht : ¬ Obtained creds t)
    (h : ∀ r, (writesLogin client creds).wp Q (t ++ [⟨c, r⟩]) (next r)) :
    (writesLogin client creds).wp Q t (.call c next) :=
  ⟨fun hobtained => absurd hobtained ht, fun r _ => h r⟩

theorem writesLogin_other {c : Call} {next : c.Result → Session α}
    {Q : List SessionEvent → α → Prop} (hc : ¬ c.LooksUpProxy) (ht : ¬ Obtained creds t)
    (h : ∀ r, ¬ Obtained creds (t ++ [⟨c, r⟩]) →
      (writesLogin client creds).wp Q (t ++ [⟨c, r⟩]) (next r)) :
    (writesLogin client creds).wp Q t (.call c next) :=
  writesLogin_call ht fun r => h r (not_obtained_of_other hc)

theorem proxyCreds_obtained {proxyip : UInt32} {proxyport : UInt16} (ht : ¬ Obtained creds t) :
    (writesLogin client creds).wp (fun t' r => t <+: t' ∧ (Obtained creds t' → r = some creds)) t
      (proxyCreds proxyip proxyport) := by
  simp only [proxyCreds, call, call_bind, done_bind, pure_eq]
  refine writesLogin_call ht fun cached => ?_
  cases cached with
  | some found =>
    rw [wp_done, obtained_snoc]
    simp
  | none =>
  refine writesLogin_call (by rw [obtained_snoc]; simp) fun found => ?_
  cases found with
  | none =>
    rw [wp_done, obtained_snoc]
    simp
  | some found =>
  refine writesLogin_call (by rw [obtained_snoc]; simp) fun _ => ?_
  rw [wp_done, obtained_snoc]
  simp

/-- Credentials whose message can be put together are written to the upstream at once. -/
theorem socks5Connectproxy_writesLogin (client : Socks5Cli)
    (h : authMessage creds = some (loginBytes creds.user creds.passwd)) :
    (writesLogin client creds).wp (fun t _ => ¬ Obtained creds t) []
      (socks5Connectproxy client) := by
  simp only [socks5Connectproxy, call, writen, readInto_of_le (show 2 ≤ 512 by decide), call_bind,
    done_bind, pure_eq]
  refine writesLogin_other id not_obtained_nil fun (proxyfd : Int) ht => ?_
  split
  · exact ht
  refine writesLogin_other id ht fun connected ht => ?_
  cases connected with
  | false => exact ht
  | true =>
  have hconnected : ConnectedUpstream client proxyfd
      [⟨.socket, proxyfd⟩, ⟨.connectNonb proxyfd client.srvpeer, true⟩] := ⟨[], rfl⟩
  refine writesLogin_other id ht fun ok ht => ?_
  split
  · exact ht
  refine writesLogin_other id ht fun buf ht => ?_
  cases buf with
  | none => exact ht
  | some buf =>
  dsimp only
  split
  · exact ht
  refine wp_bind.mpr (wp_mono (proxyCreds_obtained ht) fun t found hfound => ?_)
  obtain ⟨hbefore, hfound⟩ := hfound
  cases found with
  | none => exact fun hob => absurd (hfound hob) (by simp)
  | some found =>
  dsimp only
  split
  · -- what is written is the message for the credentials obtained
    rename_i data hdata
    refine ⟨fun hob => ?_, fun ok _ => ?_⟩
    · cases hfound hob
      rw [h] at hdata
      cases hdata
      exact ⟨proxyfd, ((hconnected.append _).append _).trans hbefore, rfl⟩
    have ht : ¬ Obtained creds (t ++ [⟨.writen proxyfd data, ok⟩]) := not_obtained_of_other id
    refine wp_of_all (I := fun t => ¬ Obtained creds t) (P := fun c => ¬ c.LooksUpProxy) ?_ ht
      (fun _ _ ht _ hob => absurd hob ht) (fun _ _ _ he => not_obtained_of_other he) fun _ _ ht => ht
    refine all_ite.mpr ⟨fun _ => all_done, fun _ => ⟨id, fun reply => ?_⟩⟩
    cases reply with
    | none => trivial
    | some reply =>
    refine all_ite.mpr ⟨fun _ => all_done, fun _ => ?_⟩
    refine ((socks5Writerequest_all _).mono ?_).bind fun status => ?_
    · rintro _ ⟨b, rfl⟩
      exact id
    · refine all_ite.mpr ⟨fun _ => all_done, fun _ => ?_⟩
      exact ((socks5Readreply_all _).mono fun _ => Call.Reads.not_looksUpProxy).bind fun _ => all_done
  · rename_i hnone
    refine ⟨fun hob => ?_, fun r => r.elim⟩
    cases hfound hob
    exact absurd h (hnone _)

/-! ### What the upstream reads -/

/-- `socks5_readauth` reads just the message of a login of strings. -/
theorem loginBytes_decodes {user passwd : List UInt8} (huser : 0 ∉ user) (hpasswd : 0 ∉ passwd)
    (hu : user.length < 256) (hp : passwd.length < 256) :
    Decodes (loginBytes user passwd) user passwd := by
  intro ω world client schedule rest w w' hfd hschedule hwrite
  have hinput : (SessionView.start (loginBytes user passwd ++ rest) w).input =
      [[1], [UInt8.ofNat user.length], user, [UInt8.ofNat passwd.length], passwd].flatten ++
        rest := by
    simp [SessionView.start, loginBytes]
  obtain ⟨v, hanswers, hrest, hworld⟩ := World.answers_chunks world _ hinput
  have hreads : [[1], [UInt8.ofNat user.length], user, [UInt8.ofNat passwd.length], passwd].map
      (chunkEvent world.clientfd) = login client.clientfd user passwd := by
    simp [login, byteEvent_chunk, hfd]
  rw [hreads] at hanswers
  have hanswer : world.stream (.writen client.clientfd [1, 0]) v =
      some (true, { v with world := w', events := v.events ++
        [⟨.writen client.clientfd [1, 0], true⟩] }) := by
    have hw : v.world = w := hworld
    simp [World.stream, World.call, hw, hwrite]
  have hrun : Runs (socks5Readauth client)
      (login client.clientfd user passwd ++ [⟨.writen client.clientfd [1, 0], true⟩])
      (.done (0, { client with user, passwd })) := by
    have hread := (readauth_login client hu hp).append (.cons (r := true) (.nil _))
    rwa [Socks5Cli.withLogin, cstr_eq_self huser, cstr_eq_self hpasswd] at hread
  have heval := hrun.eval (hanswers.append (.cons hanswer (.nil _)))
  exact ⟨_, (World.run_eq _ hschedule _).trans heval, hrest⟩

end Written

/-- The message for an upstream is correct for the credentials that have at most 127 bytes each. -/
theorem authBlock_correct_iff {creds : Creds} (huser : 0 ∉ creds.user) (hpasswd : 0 ∉ creds.passwd)
    (hu : creds.user.length ≤ 255) (hp : creds.passwd.length ≤ 255) :
    AuthCorrect creds ↔ creds.user.length ≤ 127 ∧ creds.passwd.length ≤ 127 := by
  constructor
  · intro hcorrect
    by_contra hlong
    obtain ⟨b, hb, -⟩ := hcorrect.block (Vector.replicate 512 0)
    rw [authBlock_long hu hp hlong] at hb
    cases hb
  · rintro ⟨hu', hp'⟩
    refine ⟨fun buf => ?_, fun client t q hrun hob => ?_, ?_⟩
    · obtain ⟨buf', hblock, hbuf'⟩ := authBlock_short hu' hp' buf
      have hlen := hbuf'.length_le
      exact ⟨_, hblock, by omega, hbuf'.take_toList⟩
    · obtain ⟨buf', hblock, hbuf'⟩ := authBlock_short hu' hp' (Vector.replicate 512 0)
      have hmessage := authBlock_message hu hp (Vector.replicate 512 0)
      rw [hblock, Option.map_some, blockBytes, Int.toNat_natCast, hbuf'.take_toList] at hmessage
      have hwp := history_runs (socks5Connectproxy_writesLogin client hmessage.symm) hrun
        fun _ _ => trivial
      cases q with
      | done a => exact absurd hob hwp
      | call c next =>
        obtain ⟨fd, hconnected, rfl⟩ := hwp.1 hob
        exact ⟨fd, next, hconnected, rfl⟩
    · exact loginBytes_decodes huser hpasswd (by omega) (by omega)

theorem authBlock_correct_ab : AuthCorrect ⟨[97], [98]⟩ :=
  (authBlock_correct_iff (by decide) (by decide) (by decide) (by decide)).mpr ⟨by decide, by decide⟩

/-- A user of 128 bytes. -/
def longUser : Creds := ⟨List.replicate 128 97, [98]⟩

/-- Its length is read back as -128, and the copy leaves the array. -/
theorem longUser_unencoded :
    authBlock longUser (Vector.replicate 512 0) = none ∧ ¬ AuthCorrect longUser := by
  have hlen : longUser.user.length = 128 := List.length_replicate
  have hnone : ∀ buf, authBlock longUser buf = none :=
    authBlock_long (by omega) (by decide) (by omega)
  refine ⟨hnone _, fun hcorrect => ?_⟩
  obtain ⟨b, hb, -⟩ := hcorrect.block (Vector.replicate 512 0)
  rw [hnone] at hb
  cases hb

end Silksocks
