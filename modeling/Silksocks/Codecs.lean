import Silksocks.Replies

/-! The messages that one instance of the server writes and another one reads: the request to an
upstream, which is the request of a client there, and the reply to a client, which is the reply of
an upstream there. -/

namespace Silksocks

open Program Prog

/-- Behind the events `t`, the program writes `data` to `fd`. -/
def Writes {α : Type} (p : Session α) (t : List SessionEvent) (fd : Int) (data : List UInt8) :
    Prop :=
  ∃ next, Runs p t (.call (.writen fd data) next)

/-- From a stream that begins with `data`, which arrives at `fd` in any pieces, the program gets
`a`.  It leaves `left` of `data`, and what comes behind it. -/
def Reads {α : Type} (p : Session α) (fd : Int) (data : List UInt8) (a : α) (left : List UInt8) :
    Prop :=
  ∀ (ω : Type) (world : World ω) (schedule : List Arrival) (rest : List UInt8) (w : ω),
    world.clientfd = fd → NoError schedule →
      ∃ v, world.run p schedule (.start (data ++ rest) w) = some (a, v) ∧ v.input = left ++ rest

section Codecs

variable {α : Type} {fd : Int}

/-- A complete run reads its chunks from every stream that begins with them. -/
theorem reads_of_runs {p : Session α} {bss : List (List UInt8)} {left : List UInt8} {a : α}
    (h : Runs p (bss.map (chunkEvent fd)) (.done a)) : Reads p fd (bss.flatten ++ left) a left := by
  intro ω world schedule rest w hfd hschedule
  subst hfd
  have hinput : (SessionView.start (bss.flatten ++ left ++ rest) w).input =
      bss.flatten ++ (left ++ rest) := List.append_assoc _ _ _
  obtain ⟨v, hanswers, hrest, -⟩ := World.answers_chunks world bss hinput
  exact ⟨v, (World.run_eq p hschedule _).trans (h.eval hanswers), hrest⟩

theorem Sockaddr.Valid.take_addr {sa : Sockaddr} (h : sa.Valid) :
    sa.addr.take sa.addrLen = sa.addr := by
  apply List.take_of_length_le
  rcases h.addr with ⟨hfamily, hlen⟩ | ⟨hfamily, hlen⟩ <;> simp [Sockaddr.addrLen, hfamily, hlen]

/-! ### Requests -/

/-- The request to connect to an address. -/
def requestBytes (request : Sockaddr) : List UInt8 :=
  [5, 1, 0, if request.family = .inet then 1 else 4] ++ request.addr.take request.addrLen ++
    request.port

theorem writerequest_writes (sender : Socks5Cli) :
    Writes (socks5Writerequest sender) [] sender.proxyfd (requestBytes sender.request) :=
  ⟨_, .nil _⟩

theorem readrequest_reads {request : Sockaddr} (h : request.Valid) (reader : Socks5Cli) :
    Reads (socks5Readrequest reader) reader.clientfd (requestBytes request)
      (0, { reader with cmd := 1, request }) [] := by
  have htake := h.take_addr
  obtain ⟨family, addr, port⟩ := request
  obtain ⟨haddr, hport⟩ := h
  dsimp only at haddr hport htake
  have hbytes : ∀ atyp : UInt8, [5, 1, 0, atyp] ++ addr ++ port =
      [[5], [1], [0], [atyp], addr, port].flatten ++ [] := by simp
  rw [requestBytes, htake, hbytes]
  apply reads_of_runs
  rcases haddr with ⟨rfl, hlen⟩ | ⟨rfl, hlen⟩
  · refine .cons (.cons (.cons (.cons ?_)))
    exact runs_chunk hlen (runs_chunk hport (.nil _))
  · refine .cons (.cons (.cons (.cons ?_)))
    exact runs_chunk hlen (runs_chunk hport (.nil _))

/-! ### Replies -/

theorem writereply_writes (sender : Socks5Cli) (st : Int) (ss : Sockaddr) :
    Writes (socks5Writereply sender st) [⟨.getsockname sender.proxyfd, some ss⟩] sender.clientfd
      (replyOf st ss) :=
  ⟨_, .cons (.nil _)⟩

theorem readreply_reads {ss : Sockaddr} (h : ss.Valid) (reader : Socks5Cli) (s : UInt8) :
    ∃ left,
      Reads (socks5Readreply reader) reader.proxyfd (replyOf s.toNat ss) (s.toNat : Int) left ∧
        (s = 0 → left = []) := by
  have hstatus : UInt8.ofInt s.toNat = s := by
    rw [← UInt8.toNat_inj, UInt8.ofInt, UInt8.toNat_ofNat']
    have := s.toNat_lt
    omega
  have htake := h.take_addr
  obtain ⟨family, addr, port⟩ := ss
  obtain ⟨haddr, hport⟩ := h
  dsimp only at haddr hport htake
  by_cases hs : s = 0
  · subst hs
    refine ⟨[], ?_, fun _ => rfl⟩
    have hbytes : ∀ atyp : UInt8, [5, 0, 0, atyp] ++ addr ++ port =
        [[5, 0, 0, atyp], addr ++ port].flatten ++ [] := by simp
    rw [replyOf, hstatus, htake, replyBytes, hbytes]
    apply reads_of_runs
    have hbound : (addr ++ port).length = addr.length + 2 := by rw [List.length_append, hport]
    rcases haddr with ⟨rfl, hlen⟩ | ⟨rfl, hlen⟩
    · refine .cons (runs_chunk ?_ (.nil _))
      rw [hbound, hlen]
    · refine .cons (runs_chunk ?_ (.nil _))
      rw [hbound, hlen]
  · refine ⟨addr ++ port, ?_, fun h => absurd h hs⟩
    have hbytes : ∀ atyp : UInt8, [5, s, 0, atyp] ++ addr ++ port =
        [[5, s, 0, atyp]].flatten ++ (addr ++ port) := by simp
    rw [replyOf, hstatus, htake, replyBytes, hbytes]
    apply reads_of_runs
    have hread : ∀ atyp : UInt8, Runs (socks5Readreply reader)
        [chunkEvent reader.proxyfd [5, s, 0, atyp]] (.done (s.toNat : Int)) := by
      intro atyp
      refine .cons ?_
      show Runs (if (5 : UInt8) ≠ 5 ∨ s ≠ 0 then .done (s.toNat : Int) else _) [] _
      rw [if_pos (.inr hs)]
      exact .nil _
    exact hread _

end Codecs

/-- What one instance writes another one reads back: a request with its address and port, and of a
reply its status.  A request and a reply of success are read to their ends. -/
theorem codecs_agree :
    (∀ sender : Socks5Cli, sender.request.Valid →
      ∃ data, Writes (socks5Writerequest sender) [] sender.proxyfd data ∧
        ∀ reader : Socks5Cli, Reads (socks5Readrequest reader) reader.clientfd data
          (0, { reader with cmd := 1, request := sender.request }) []) ∧
    ∀ (sender : Socks5Cli) (ss : Sockaddr) (s : UInt8), ss.Valid →
      ∃ data, Writes (socks5Writereply sender s.toNat)
          [⟨.getsockname sender.proxyfd, some ss⟩] sender.clientfd data ∧
        ∀ reader : Socks5Cli, ∃ left,
          Reads (socks5Readreply reader) reader.proxyfd data (s.toNat : Int) left ∧
            (s = 0 → left = []) := by
  refine ⟨fun sender h => ?_, fun sender ss s h => ?_⟩
  · exact ⟨_, writerequest_writes sender, readrequest_reads h⟩
  · exact ⟨_, writereply_writes sender _ ss, fun reader => readreply_reads h reader s⟩

/-- A request for an IPv6 address, and the reply 05 from an IPv4 address. -/
theorem codecs_agree_inet6 :
    let request : Sockaddr :=
      ⟨.inet6, [32, 1, 13, 184, 0, 0, 0, 0, 0, 0, 0, 0, 0, 0, 0, 1], [1, 187]⟩
    let sender : Socks5Cli := { Socks5Cli.start 4 with request, proxyfd := 5 }
    (∃ data, Writes (socks5Writerequest sender) [] 5 data ∧
      Reads (socks5Readrequest (.start 6)) 6 data
        (0, { Socks5Cli.start 6 with cmd := 1, request }) []) ∧
    ∃ data, Writes (socks5Writereply sender 5)
        [⟨.getsockname 5, some ⟨.inet, [10, 0, 0, 1], [0, 80]⟩⟩] 4 data ∧
      ∃ left, Reads (socks5Readreply { Socks5Cli.start 6 with proxyfd := 7 }) 7 data 5 left := by
  intro request sender
  obtain ⟨data, hwrites, hreads⟩ := codecs_agree.1 sender ⟨.inr ⟨rfl, rfl⟩, rfl⟩
  obtain ⟨data', hwrites', hreads'⟩ :=
    codecs_agree.2 sender ⟨.inet, [10, 0, 0, 1], [0, 80]⟩ 5 ⟨.inl ⟨rfl, rfl⟩, rfl⟩
  obtain ⟨left, hleft, -⟩ := hreads' { Socks5Cli.start 6 with proxyfd := 7 }
  exact ⟨⟨data, hwrites, hreads (.start 6)⟩, data', hwrites', left, hleft⟩

end Silksocks
