import LightwayCffi.Client.Config

/-!
# The network configuration

When the server has assigned an address, `ip_config` keeps the configuration and hands it to the
host as a `he_network_config_ipv4_t`, with the addresses as text in fields of 64 bytes each.
`copy_ip_str` writes a text byte by byte and cuts it off after 63 bytes. An address is never longer
than 15, so that a host that reads the fields as C strings gets all of it: `ip_config_roundTrip`.
-/

namespace LightwayCffi.Client

/-- `std::net::Ipv4Addr`. -/
structure Ipv4Addr where
  octets : Vector UInt8 4
  deriving DecidableEq

/-- The character of a decimal digit. -/
def digit (d : ℕ) : UInt8 := UInt8.ofNat (48 + d)

/-- An octet in decimal, as `Display` writes it. -/
def decimal (b : UInt8) : Bytes :=
  let n := b.toNat
  if n < 10 then [digit n]
  else if n < 100 then [digit (n / 10), digit (n % 10)]
  else [digit (n / 100), digit (n / 10 % 10), digit (n % 10)]

/-- `Ipv4Addr::to_string`: the octets in decimal, with dots between them. -/
def Ipv4Addr.text (addr : Ipv4Addr) : Bytes :=
  [46].intercalate (addr.octets.toList.map decimal)

/-- `dst[i] = b`. -/
def assign (dst : Bytes) (i : ℕ) (b : UInt8) : Option Bytes :=
  if i < dst.length then some (dst.set i b) else none

/-- `copy_ip_str`. -/
def copyIpStr (addr : Ipv4Addr) (dst : Bytes) : Option Bytes := do
  let bytes := addr.text
  let len := min bytes.length 63
  let dst ← (bytes.take len).zipIdx.foldlM (fun dst p => assign dst p.2 p.1) dst
  assign dst len 0

/-- lightway-core's `InsideIpConfig`. -/
structure InsideIpConfig where
  clientIp : Ipv4Addr
  serverIp : Ipv4Addr
  dnsIp : Ipv4Addr

/-- `he_network_config_ipv4_t`. -/
structure HeNetworkConfigIpv4 where
  localIp : Bytes
  dnsIp : Bytes
  peerIp : Bytes
  mtu : UInt16

/-- `ip_config`: what is kept in the state, and what the host is called with if it has registered a
callback. The MTU is a constant of lightway-core. -/
def ipConfig (registered : Bool) (maxInsideMtu : UInt16) (config : InsideIpConfig) :
    Option (InsideIpConfig × Option HeNetworkConfigIpv4) :=
  if registered then do
    let localIp ← copyIpStr config.clientIp (List.replicate 64 0)
    let dnsIp ← copyIpStr config.dnsIp (List.replicate 64 0)
    let peerIp ← copyIpStr config.serverIp (List.replicate 64 0)
    pure (config, some { localIp, dnsIp, peerIp, mtu := maxInsideMtu })
  else some (config, none)

/-! ## Reading an address -/

/-- An octet from its decimal digits. -/
def octetOf (digits : Bytes) : Option UInt8 :=
  let value := digits.foldl (fun acc d => acc * 10 + (d.toNat - 48)) 0
  let valid := digits.all fun d => 48 ≤ d.toNat && d.toNat ≤ 57
  if !digits.isEmpty && valid && value < 256 then some (UInt8.ofNat value) else none

/-- An address from its text: four octets, with dots between them. -/
def parseIpv4 (text : Bytes) : Option Ipv4Addr := do
  let octets ← (text.splitOn 46).mapM octetOf
  let octets ← Buffer.tryInto 4 octets
  pure ⟨octets⟩

/-- A field that a host can read: a C string within its 64 bytes, with the text of the address. -/
structure Reads (field : Bytes) (addr : Ipv4Addr) : Prop where
  length_eq : field.length = 64
  terminated : 0 ∈ field
  text : parseIpv4 (cStrFromPtr field) = some addr

theorem toNat_digit {d : ℕ} (h : d < 10) : (digit d).toNat = 48 + d := by
  rw [digit, UInt8.toNat_ofNat']
  omega

/-- The characters of an octet are digits. -/
theorem decimal_chars (b : UInt8) :
    (decimal b).length ≤ 3 ∧ ∀ d ∈ decimal b, 48 ≤ d.toNat ∧ d.toNat ≤ 57 := by
  have hdigit : ∀ {n : ℕ}, n < 10 → 48 ≤ (digit n).toNat ∧ (digit n).toNat ≤ 57 := by
    intro n hn
    rw [toNat_digit hn]
    omega
  have hlt := b.toNat_lt
  unfold decimal
  dsimp only
  split_ifs with h₁ h₂
  · simpa using hdigit h₁
  · simpa using ⟨hdigit (by omega), hdigit (by omega)⟩
  · simpa using ⟨hdigit (by omega), hdigit (by omega), hdigit (by omega)⟩

theorem not_mem_decimal {b c : UInt8} (h : c.toNat < 48) : c ∉ decimal b := by
  intro hc
  have := ((decimal_chars b).2 c hc).1
  omega

theorem octetOf_decimal (b : UInt8) : octetOf (decimal b) = some b := by
  have hlt := b.toNat_lt
  have hvalue : (decimal b).foldl (fun acc d => acc * 10 + (d.toNat - 48)) 0 = b.toNat := by
    unfold decimal
    dsimp only
    split_ifs with h₁ h₂
    · simp only [List.foldl_cons, List.foldl_nil, toNat_digit h₁]
      omega
    · have hhigh : b.toNat / 10 < 10 := by omega
      have hlow : b.toNat % 10 < 10 := by omega
      simp only [List.foldl_cons, List.foldl_nil, toNat_digit hhigh, toNat_digit hlow]
      omega
    · have hhigh : b.toNat / 100 < 10 := by omega
      have hmid : b.toNat / 10 % 10 < 10 := by omega
      have hlow : b.toNat % 10 < 10 := by omega
      simp only [List.foldl_cons, List.foldl_nil, toNat_digit hhigh, toNat_digit hmid,
        toNat_digit hlow]
      omega
  have hne : decimal b ≠ [] := by
    unfold decimal
    dsimp only
    split_ifs <;> simp
  have hvalid : (decimal b).all (fun d => 48 ≤ d.toNat && d.toNat ≤ 57) = true := by
    simpa using (decimal_chars b).2
  rw [octetOf, hvalue, hvalid, if_pos (by simpa [hne] using hlt), UInt8.ofNat_toNat]

theorem mapM_octetOf (octets : Bytes) : (octets.map decimal).mapM octetOf = some octets := by
  induction octets with
  | nil => rfl
  | cons b octets ih => simp [List.mapM_cons, octetOf_decimal, ih]

/-- Reading what `to_string` writes. -/
theorem parseIpv4_text (addr : Ipv4Addr) : parseIpv4 addr.text = some addr := by
  have hdots : ∀ field ∈ addr.octets.toList.map decimal, 46 ∉ field := by
    intro field hfield
    obtain ⟨b, -, rfl⟩ := List.mem_map.1 hfield
    exact not_mem_decimal (by decide)
  have hsome : addr.octets.toList.map decimal ≠ [] := by
    rw [Ne, List.map_eq_nil_iff, ← List.length_eq_zero_iff, Vector.length_toList]
    decide
  rw [parseIpv4, Ipv4Addr.text, List.splitOn_intercalate 46 hdots hsome, mapM_octetOf]
  simp only [Option.bind_eq_bind, Option.bind_some, Buffer.tryInto_toList]
  rfl

/-- The text of an address is at most 15 bytes long, and has no NUL. -/
theorem text_chars (addr : Ipv4Addr) : addr.text.length ≤ 15 ∧ 0 ∉ addr.text := by
  obtain ⟨a, b, c, d, hoctets⟩ : ∃ a b c d, addr.octets.toList = [a, b, c, d] :=
    List.length_eq_four.1 addr.octets.length_toList
  have htext : addr.text =
      decimal a ++ (46 :: (decimal b ++ (46 :: (decimal c ++ (46 :: decimal d))))) := by
    simp [Ipv4Addr.text, hoctets, List.intercalate]
  have hnul : ∀ b, 0 ∉ decimal b := fun b => not_mem_decimal (by decide)
  have hlength := fun b => (decimal_chars b).1
  rw [htext]
  refine ⟨?_, by simp [hnul]⟩
  have := hlength a
  have := hlength b
  have := hlength c
  have := hlength d
  simp only [List.length_append, List.length_cons]
  omega

/-! ## Writing an address -/

/-- The loop of `copy_ip_str`, from the index `pre.length` on. -/
theorem foldlM_assign (pre mid post bs : Bytes) (h : mid.length = bs.length) :
    (bs.zipIdx pre.length).foldlM (fun dst p => assign dst p.2 p.1) (pre ++ (mid ++ post)) =
      some (pre ++ (bs ++ post)) := by
  induction bs generalizing pre mid with
  | nil =>
    obtain rfl := List.length_eq_zero_iff.1 h
    rfl
  | cons b bs ih =>
    obtain ⟨c, mid, rfl⟩ := List.exists_cons_of_length_eq_add_one h
    have hassign : assign (pre ++ (c :: mid ++ post)) pre.length b =
        some ((pre ++ [b]) ++ (mid ++ post)) := by
      rw [assign, if_pos (by simp)]
      simp
    rw [List.zipIdx_cons, List.foldlM_cons, hassign]
    have hrest := ih (pre ++ [b]) mid (by simpa using h)
    rw [List.length_append, List.length_singleton] at hrest
    simpa using hrest

/-- `copy_ip_str` writes the text and a NUL. -/
theorem copyIpStr_eq (addr : Ipv4Addr) :
    copyIpStr addr (List.replicate 64 0) =
      some (addr.text ++ List.replicate (64 - addr.text.length) 0) := by
  obtain ⟨hlength, -⟩ := text_chars addr
  have hsplit : (List.replicate 64 0 : Bytes) = [] ++ (List.replicate addr.text.length 0 ++
      List.replicate (64 - addr.text.length) 0) := by
    rw [List.nil_append, List.replicate_append_replicate, Nat.add_sub_cancel' (by omega)]
  have hloop := foldlM_assign [] (List.replicate addr.text.length 0)
    (List.replicate (64 - addr.text.length) 0) addr.text List.length_replicate
  rw [List.length_nil] at hloop
  have hnul : assign (addr.text ++ List.replicate (64 - addr.text.length) 0) addr.text.length 0 =
      some (addr.text ++ List.replicate (64 - addr.text.length) 0) := by
    rw [assign, if_pos (by simp; omega), List.set_append_right _ _ le_rfl, Nat.sub_self,
      List.set_replicate_self]
  rw [copyIpStr, Nat.min_eq_left (by omega), List.take_length, hsplit, hloop]
  exact hnul

theorem reads_text (addr : Ipv4Addr) :
    Reads (addr.text ++ List.replicate (64 - addr.text.length) 0) addr := by
  obtain ⟨hlength, hnul⟩ := text_chars addr
  have hstring : cStrFromPtr (addr.text ++ List.replicate (64 - addr.text.length) 0) =
      addr.text := by
    rw [cStrFromPtr, List.takeWhile_append_of_pos, List.takeWhile_replicate]
    · simp
    · intro b hb
      simpa using ne_of_mem_of_not_mem hb hnul
  refine ⟨by simp; omega, ?_, by rw [hstring, parseIpv4_text]⟩
  refine List.mem_append_right _ (List.mem_replicate.2 ⟨?_, rfl⟩)
  omega

/-- **The host reads the addresses that were assigned.** Whatever the configuration, a callback that
is registered is called with fields of 64 bytes, each with a NUL at its end and before it the text
of the address that the field is for. -/
theorem ip_config_roundTrip (maxInsideMtu : UInt16) (config : InsideIpConfig) :
    ∃ net, ipConfig true maxInsideMtu config = some (config, some net) ∧
      net.mtu = maxInsideMtu ∧ Reads net.localIp config.clientIp ∧
      Reads net.dnsIp config.dnsIp ∧ Reads net.peerIp config.serverIp := by
  refine ⟨⟨_, _, _, _⟩, ?_, rfl, reads_text config.clientIp, reads_text config.dnsIp,
    reads_text config.serverIp⟩
  rw [ipConfig, if_pos rfl, copyIpStr_eq, copyIpStr_eq, copyIpStr_eq]
  rfl

example : (copyIpStr ⟨#v[10, 125, 0, 2]⟩ (List.replicate 64 0)).map cStrFromPtr =
    some [49, 48, 46, 49, 50, 53, 46, 48, 46, 50] := by
  decide

end LightwayCffi.Client
