import Liblw.Net.Tls

/-!
# What a TLS stream leaves behind

`TLSStream::write` reads ciphertext in pieces until it has as many bytes as the plaintext had. The
ciphertext is longer than that, so the rest of it goes out only where the last piece reaches it.
-/

namespace Liblw.Net

open Liblw.Lib

variable {σ ρ : Type}

/-- The BIO that the ciphertext goes to, as documented: `SSL_write` puts the records of all the
bytes that it took behind what is there, and `BIO_read` takes bytes off the front, as many as there
are up to the number it is given. -/
structure OpenSsl.Outgoing (ssl : OpenSsl σ) where
  pending : σ → List UInt8
  sslWrite : ∀ data num session, 0 < (ssl.sslWrite data num session).1 →
    ∃ ciphertext, pending (ssl.sslWrite data num session).2 = pending session ++ ciphertext ∧
      (ssl.sslWrite data num session).1.toNat ≤ ciphertext.length
  bioRead_some : ∀ num session, 0 < num → pending session ≠ [] →
    (ssl.bioRead num session).1 =
        ((((pending session).take num.toNat).length : Int), (pending session).take num.toNat) ∧
      pending (ssl.bioRead num session).2 = (pending session).drop num.toNat
  bioRead_empty : ∀ num session, 0 < num → pending session = [] →
    (ssl.bioRead num session).1.1 < 0 ∧ ssl.bioShouldRetry (ssl.bioRead num session).2 = true ∧
      pending (ssl.bioRead num session).2 = []
  bioRead_nothing : ∀ num session, num ≤ 0 →
    (ssl.bioRead num session).1 = (0, []) ∧
      pending (ssl.bioRead num session).2 = pending session

/-- The plaintext's length rounded up to whole pieces. -/
def rounded (size limit : Nat) : Nat := (size + limit - 1) / limit * limit

theorem rounded_of_le {size limit : Nat} (hpos : 0 < size) (hle : size ≤ limit) :
    rounded size limit = limit := by
  unfold rounded
  rw [show size + limit - 1 = size - 1 + limit by omega, Nat.add_div_right _ (by omega),
    Nat.div_eq_of_lt (by omega), Nat.one_mul]

theorem rounded_zero {limit : Nat} (hlimit : 0 < limit) : rounded 0 limit = 0 := by
  unfold rounded
  rw [Nat.div_eq_of_lt (by omega), Nat.zero_mul]

theorem rounded_add {size limit : Nat} (hpos : 0 < size) (hlimit : 0 < limit) :
    rounded (size + limit) limit = rounded size limit + limit := by
  unfold rounded
  rw [show size + limit + limit - 1 = size + limit - 1 + limit by omega,
    Nat.add_div_right _ hlimit, Nat.succ_mul]

/-- Behind one piece the bytes that are left suffice as they did before it. -/
theorem le_rounded_iff {size limit length : Nat} (hlimit : 0 < limit) (hpos : 0 < size)
    (hle : size ≤ length) :
    length - limit ≤ rounded (size - min limit length) limit ↔ length ≤ rounded size limit := by
  by_cases hlast : size ≤ limit
  · have hdone : size - min limit length = 0 := by omega
    rw [rounded_of_le hpos hlast, hdone, rounded_zero hlimit]
    omega
  · have hwhole : min limit length = limit := by omega
    have hsplit : rounded size limit = rounded (size - limit) limit + limit := by
      rw [← rounded_add (by omega) hlimit, Nat.sub_add_cancel (by omega)]
    rw [hwhole, hsplit]
    omega

namespace TLSStream

/-! ### One round -/

section Round

variable {ssl : OpenSsl σ} {rawWrite : List UInt8 → Call Fault ρ Nat}
  {before after : TLSStream σ (ρ × List UInt8)} {bytes : List UInt8} {count : Nat}

/-- How many bytes one piece can have. -/
def limit (stream : TLSStream σ ρ) : Nat := (toInt stream.writeBufferSize).toNat

theorem exec_handing
    (hexec : (onRawStream (handing rawWrite bytes)).exec before = (.ok count, after)) :
    after.client = before.client ∧ after.writeBufferSize = before.writeBufferSize ∧
      after.rawStream.2 = before.rawStream.2 ++ bytes := by
  obtain ⟨inner, hinner, rfl⟩ := Call.exec_within_eq_ok hexec
  refine ⟨rfl, rfl, ?_⟩
  unfold handing at hinner
  rw [Call.exec_modify_bind] at hinner
  obtain ⟨raw, _, rfl⟩ := Call.exec_within_eq_ok hinner
  rfl

/-- A piece that was read and handed to the raw stream. -/
structure Piece (outgoing : ssl.Outgoing) (before after : TLSStream σ (ρ × List UInt8)) : Prop where
  pending : outgoing.pending after.client = (outgoing.pending before.client).drop before.limit
  handed : after.rawStream.2 =
    before.rawStream.2 ++ (outgoing.pending before.client).take before.limit
  limit : after.limit = before.limit

theorem exec_readEncryptedData (outgoing : ssl.Outgoing) {size : Nat} {client : σ}
    (hnum : 0 < toInt size) (hpending : outgoing.pending client ≠ []) :
    (readEncryptedData ssl size).exec client =
      (.ok (⟨.completed, min (toInt size).toNat (outgoing.pending client).length⟩,
        (outgoing.pending client).take (toInt size).toNat),
          (ssl.bioRead (toInt size) client).2) := by
  obtain ⟨hread, -⟩ := outgoing.bioRead_some _ client hnum hpending
  unfold readEncryptedData
  rw [Call.exec_bind, Call.exec_ofFunction, hread]
  dsimp only
  rw [Call.exec_get_bind, if_neg (by omega), Call.exec_pure, Int.toNat_natCast, List.length_take]

/-- Where the transferred bytes do not suffice, the loop goes on behind a piece. -/
theorem transfer_piece (outgoing : ssl.Outgoing) {size rounds transferred : Nat}
    (hlimit : 0 < before.limit) (hpending : outgoing.pending before.client ≠ [])
    (hmore : ¬ size ≤ transferred)
    (hexec : (transfer ssl (handing rawWrite) size (rounds + 1) transferred).exec before =
      (.ok count, after)) :
    ∃ middle, Piece outgoing before middle ∧
      (transfer ssl (handing rawWrite) size rounds
        (transferred + min before.limit (outgoing.pending before.client).length)).exec middle =
          (.ok count, after) := by
  have hnum : 0 < toInt before.writeBufferSize := by
    unfold limit at hlimit
    omega
  unfold transfer at hexec
  rw [if_neg hmore, Call.exec_get_bind] at hexec
  obtain ⟨⟨res, bytes⟩, next, hread, hloop⟩ := Call.exec_bind_eq_ok hexec
  obtain ⟨client, hinner, rfl⟩ := Call.exec_within_eq_ok hread
  rw [exec_readEncryptedData outgoing hnum hpending] at hinner
  cases hinner
  obtain ⟨written, middle, hraw, hrest⟩ := Call.exec_bind_eq_ok hloop
  obtain ⟨hclient, hsize, hhanded⟩ := exec_handing hraw
  refine ⟨middle, ⟨?_, hhanded, ?_⟩, hrest⟩
  · rw [hclient]
    exact (outgoing.bioRead_some _ before.client hnum hpending).2
  · unfold limit
    rw [hsize]

/-- A write buffer that takes nothing keeps the loop going for ever. -/
theorem not_transfer_of_limit (outgoing : ssl.Outgoing) {size rounds transferred : Nat}
    (hlimit : before.limit = 0) (hmore : ¬ size ≤ transferred) :
    (transfer ssl (handing rawWrite) size rounds transferred).exec before ≠ (.ok count, after) := by
  induction rounds generalizing before with
  | zero => exact nofun
  | succ rounds ih =>
      intro hexec
      have hnum : toInt before.writeBufferSize ≤ 0 := by
        unfold limit at hlimit
        omega
      have hnothing : (readEncryptedData ssl before.writeBufferSize).exec before.client =
          (.ok (⟨.completed, 0⟩, []),
            (ssl.bioRead (toInt before.writeBufferSize) before.client).2) := by
        obtain ⟨hread, -⟩ := outgoing.bioRead_nothing _ before.client hnum
        unfold readEncryptedData
        rw [Call.exec_bind, Call.exec_ofFunction, hread]
        dsimp only
        rw [Call.exec_get_bind, if_neg (by omega), Call.exec_pure, Int.toNat_zero]
      unfold transfer at hexec
      rw [if_neg hmore, Call.exec_get_bind] at hexec
      obtain ⟨⟨res, bytes⟩, next, hread, hloop⟩ := Call.exec_bind_eq_ok hexec
      obtain ⟨client, hinner, rfl⟩ := Call.exec_within_eq_ok hread
      rw [hnothing] at hinner
      cases hinner
      obtain ⟨written, middle, hraw, hrest⟩ := Call.exec_bind_eq_ok hloop
      obtain ⟨-, hsize, -⟩ := exec_handing hraw
      refine ih ?_ hrest
      unfold limit at hlimit ⊢
      rw [hsize]
      exact hlimit

end Round

/-! ### The loop -/

section Loop

variable {ssl : OpenSsl σ} {rawWrite : List UInt8 → Call Fault ρ Nat}
  {before after : TLSStream σ (ρ × List UInt8)} {count : Nat}

/-- What the raw stream was given and what is still pending make up what they were before. The loop
hands out whole pieces up to the first that reaches the size. -/
theorem transfer_drains (outgoing : ssl.Outgoing) {size rounds transferred : Nat}
    (hlimit : 0 < before.limit)
    (hsize : size - transferred ≤ (outgoing.pending before.client).length)
    (hexec : (transfer ssl (handing rawWrite) size rounds transferred).exec before =
      (.ok count, after)) :
    after.rawStream.2 ++ outgoing.pending after.client =
        before.rawStream.2 ++ outgoing.pending before.client ∧
      (outgoing.pending after.client = [] ↔
        (outgoing.pending before.client).length ≤ rounded (size - transferred) before.limit) := by
  induction rounds generalizing transferred before with
  | zero => cases hexec
  | succ rounds ih =>
      by_cases hmore : size ≤ transferred
      · unfold transfer at hexec
        rw [if_pos hmore] at hexec
        cases hexec
        refine ⟨rfl, ?_⟩
        rw [Nat.sub_eq_zero_of_le hmore, rounded_zero hlimit, Nat.le_zero, List.length_eq_zero_iff]
      · have hpending : outgoing.pending before.client ≠ [] := by
          rw [← List.length_pos_iff]
          omega
        obtain ⟨middle, hpiece, hrest⟩ := transfer_piece outgoing hlimit hpending hmore hexec
        have hlength : (outgoing.pending middle.client).length =
            (outgoing.pending before.client).length - before.limit := by
          rw [hpiece.pending, List.length_drop]
        have hneed :
            size - (transferred + min before.limit (outgoing.pending before.client).length) ≤
              (outgoing.pending middle.client).length := by
          omega
        rw [← hpiece.limit] at hlimit
        obtain ⟨hkept, hempty⟩ := ih hlimit hneed hrest
        constructor
        · rw [hkept, hpiece.handed, hpiece.pending, List.append_assoc, List.take_append_drop]
        · rw [hempty, hlength, hpiece.limit, ← Nat.sub_sub]
          rw [hpiece.limit] at hlimit
          exact le_rounded_iff hlimit (Nat.sub_pos_of_lt (Nat.lt_of_not_le hmore)) hsize

/-- `SSL_write` took the whole buffer, and the loop starts behind it. -/
theorem exec_write {buffer : List UInt8}
    (hexec : (write ssl (handing rawWrite) buffer).exec before = (.ok count, after)) :
    (ssl.sslWrite buffer (toInt buffer.length) before.client).1 = buffer.length ∧
      0 < buffer.length ∧
        ∃ loaded, loaded.client = (ssl.sslWrite buffer (toInt buffer.length) before.client).2 ∧
          loaded.rawStream = before.rawStream ∧ loaded.limit = before.limit ∧
            (transfer ssl (handing rawWrite) buffer.length (buffer.length + 1) 0).exec loaded =
              (.ok count, after) := by
  unfold write at hexec
  obtain ⟨res, next, hbuffer, hloop⟩ := Call.exec_bind_eq_ok hexec
  obtain ⟨client, hinner, rfl⟩ := Call.exec_within_eq_ok hbuffer
  rw [Call.exec_ite] at hloop
  split_ifs at hloop with hfails
  · cases hloop
  · obtain ⟨hcompleted, hbytes⟩ := not_or.mp hfails
    unfold bufferPlaintextData at hinner
    rw [Call.exec_bind, Call.exec_ofFunction] at hinner
    dsimp only at hinner
    rw [Call.exec_get_bind, Call.exec_ite] at hinner
    split_ifs at hinner with hnone
    · cases herror : ssl.sslGetError (ssl.sslWrite buffer (toInt buffer.length) before.client).1
          (ssl.sslWrite buffer (toInt buffer.length) before.client).2 with
      | wantRead =>
          rw [herror] at hinner
          cases hinner
          exact absurd rfl hcompleted
      | wantWrite =>
          rw [herror] at hinner
          cases hinner
          exact absurd rfl hcompleted
      | none =>
          rw [herror] at hinner
          exact absurd (checkAllErrors_fails ssl _ _) (Call.not_fails_of_ok hinner)
      | other =>
          rw [herror] at hinner
          exact absurd (checkAllErrors_fails ssl _ _) (Call.not_fails_of_ok hinner)
    · cases hinner
      rw [not_not] at hbytes
      dsimp only at hbytes
      exact ⟨by omega, by omega, { before with
        client := (ssl.sslWrite buffer (toInt buffer.length) before.client).2 }, rfl, rfl, rfl,
        hloop⟩

/-- A write that returned has emptied the BIO, with all that was in it handed to the raw stream in
order, if and only if what was in it is no longer than the plaintext rounded up to whole pieces. -/
theorem write_empties_iff (outgoing : ssl.Outgoing) {buffer ciphertext : List UInt8}
    (hencrypt : outgoing.pending (ssl.sslWrite buffer (toInt buffer.length) before.client).2 =
      outgoing.pending before.client ++ ciphertext)
    (hexec : (write ssl (handing rawWrite) buffer).exec before = (.ok count, after)) :
    (outgoing.pending after.client = [] ∧
        after.rawStream.2 =
          before.rawStream.2 ++ (outgoing.pending before.client ++ ciphertext)) ↔
      (outgoing.pending before.client).length + ciphertext.length ≤
        rounded buffer.length before.limit := by
  obtain ⟨htaken, hpos, loaded, hclient, hraw, hsame, hloop⟩ := exec_write hexec
  have hlength : buffer.length ≤ ciphertext.length := by
    obtain ⟨produced, hproduced, hlong⟩ := outgoing.sslWrite buffer (toInt buffer.length)
      before.client (by omega)
    rw [hencrypt] at hproduced
    rw [List.append_cancel_left hproduced]
    omega
  have hlimit : 0 < loaded.limit := by
    apply Nat.pos_of_ne_zero
    intro hzero
    exact not_transfer_of_limit outgoing hzero (Nat.not_le_of_lt hpos) hloop
  have hloaded : outgoing.pending loaded.client =
      outgoing.pending before.client ++ ciphertext := by
    rw [hclient, hencrypt]
  have henough : buffer.length - 0 ≤ (outgoing.pending loaded.client).length := by
    rw [hloaded, List.length_append]
    omega
  obtain ⟨hkept, hempty⟩ := transfer_drains outgoing hlimit henough hloop
  rw [hloaded, hraw] at hkept
  rw [hloaded, hsame, Nat.sub_zero, List.length_append] at hempty
  rw [← hempty]
  constructor
  · exact And.left
  · intro hnil
    rw [hnil, List.append_nil] at hkept
    exact ⟨hnil, hkept⟩

end Loop

end TLSStream

/-! ### One record too long -/

/-- A session that only encrypts: a record has five bytes in front of the plaintext and seventeen
behind it, and the BIO is a list. -/
def framing : OpenSsl (List UInt8) where
  sslWrite data num pending :=
    if 0 < num then
      ((data.take num.toNat).length,
        pending ++ (List.replicate 5 23 ++ data.take num.toNat ++ List.replicate 17 0))
    else (-1, pending)
  sslRead _ pending := ((-1, []), pending)
  sslGetError _ _ := .other
  bioWriteAll _ pending := (true, pending)
  bioRead num pending :=
    if num ≤ 0 then ((0, []), pending)
    else if pending = [] then ((-1, []), pending)
    else (((pending.take num.toNat).length, pending.take num.toNat), pending.drop num.toNat)
  bioShouldRetry _ := true
  errorText _ := none
  systemError _ := none

def framingOutgoing : framing.Outgoing where
  pending := id
  sslWrite data num pending hpos := by
    unfold framing at hpos ⊢
    dsimp only at hpos ⊢
    split_ifs at hpos ⊢ with hnum
    · refine ⟨_, rfl, ?_⟩
      simp only [List.length_append]
      omega
    · omega
  bioRead_some num pending hnum hpending := by
    unfold framing
    dsimp only
    rw [if_neg (by omega), if_neg (show ¬ pending = [] from hpending)]
    exact ⟨rfl, rfl⟩
  bioRead_empty num pending hnum hpending := by
    unfold framing
    dsimp only
    rw [if_neg (by omega), if_pos (show pending = [] from hpending)]
    exact ⟨show (-1 : Int) < 0 by decide, rfl, hpending⟩
  bioRead_nothing num pending hnum := by
    unfold framing
    dsimp only
    rw [if_pos hnum]
    exact ⟨rfl, rfl⟩

/-- A raw stream that takes whatever it is given. -/
def takeAll (bytes : List UInt8) : Call Fault Unit Nat := pure bytes.length

/-- A stream that has handed out nothing so far. -/
def freshStream (writeBufferSize : Nat) : TLSStream (List UInt8) (Unit × List UInt8) :=
  ⟨[], ((), []), writeBufferSize⟩

def writeFresh (writeBufferSize : Nat) (plaintext : List UInt8) :
    Result Nat × TLSStream (List UInt8) (Unit × List UInt8) :=
  (TLSStream.write framing (TLSStream.handing takeAll) plaintext).exec (freshStream writeBufferSize)

/-- The text `foobar`. -/
def foobar : List UInt8 := [102, 111, 111, 98, 97, 114]

def foobarRecord : List UInt8 := List.replicate 5 23 ++ foobar ++ List.replicate 17 0

theorem write_empties_iff_foobar :
    (framingOutgoing.pending (writeFresh 64 foobar).2.client = [] ∧
        (writeFresh 64 foobar).2.rawStream.2 = (freshStream 64).rawStream.2 ++
          (framingOutgoing.pending (freshStream 64).client ++ foobarRecord)) ↔
      (framingOutgoing.pending (freshStream 64).client).length + foobarRecord.length ≤
        rounded foobar.length (freshStream 64).limit := by
  have hencrypt : framingOutgoing.pending
      (framing.sslWrite foobar (toInt foobar.length) (freshStream 64).client).2 =
        framingOutgoing.pending (freshStream 64).client ++ foobarRecord := by
    decide
  have hexec : (TLSStream.write framing (TLSStream.handing takeAll) foobar).exec (freshStream 64) =
      (.ok 28, (writeFresh 64 foobar).2) :=
    Prod.ext (by decide) rfl
  exact TLSStream.write_empties_iff framingOutgoing hencrypt hexec

/-- Sixty-four bytes through a write buffer for as many: the end of the record stays behind. -/
theorem not_write_empties :
    ¬ ∀ count, (writeFresh 64 (List.replicate 64 0)).1 = .ok count →
      framingOutgoing.pending (writeFresh 64 (List.replicate 64 0)).2.client = [] := by
  intro hempties
  have hexec : (writeFresh 64 (List.replicate 64 0)).1 = .ok 64 := by
    decide
  exact absurd (hempties 64 hexec) (by decide)

end Liblw.Net
