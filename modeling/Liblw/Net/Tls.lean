import Liblw.Io.Stream

/-!
# TLS streams

A TLS stream lies over a raw stream. A session of OpenSSL encrypts and decrypts between two BIOs in
memory, and the stream moves the bytes between these and the raw stream. OpenSSL is a parameter: the
functions that are called, on a session of any type.
-/

namespace Liblw.Net

open Liblw.Lib

inductive SslError where
  | none
  | wantRead
  | wantWrite
  | other
deriving DecidableEq, Repr

/-- The functions of OpenSSL. A read gives its result and the bytes that it stored. -/
structure OpenSsl (σ : Type) where
  sslWrite : (data : List UInt8) → (num : Int) → σ → Int × σ
  sslRead : (num : Int) → σ → (Int × List UInt8) × σ
  sslGetError : (ret : Int) → σ → SslError
  bioWriteAll : (data : List UInt8) → σ → Bool × σ
  bioRead : (num : Int) → σ → (Int × List UInt8) × σ
  bioShouldRetry : σ → Bool
  /-- The text of the error at the front of the queue of OpenSSL's errors. -/
  errorText : σ → Option String
  /-- What `check_system_error` throws for the `errno` of the moment. -/
  systemError : σ → Option Fault

/-- A `std::size_t` where an `int` is expected. -/
def toInt (size : Nat) : Int := (size : Int).bmod (2 ^ 32)

inductive TLSResult where
  | needToRead
  | needToWrite
  | again
  | completed
deriving DecidableEq, Repr

structure TLSIOResult where
  result : TLSResult
  bytes : Nat
deriving DecidableEq, Repr

def TLSIOResult.isCompleted (res : TLSIOResult) : Bool := res.result = .completed

/-! ### The client -/

section TLSClientImpl

variable {σ : Type} (ssl : OpenSsl σ)

def checkAllErrors {α : Type} (backupMessage : String) : Call Fault σ α := do
  let client ← get
  match ssl.errorText client with
  | some text => raise .internal s!"OpenSSL error: {text}"
  | none =>
      match ssl.systemError client with
      | some fault => throw fault
      | none => raise .internal backupMessage

theorem exec_checkAllErrors {α : Type} (backupMessage : String) (client : σ) :
    ∃ fault, (checkAllErrors ssl backupMessage : Call Fault σ α).exec client =
      (.error fault, client) := by
  unfold checkAllErrors
  rw [Call.exec_get_bind]
  cases ssl.errorText client with
  | some text => exact ⟨_, rfl⟩
  | none =>
      cases ssl.systemError client with
      | some fault => exact ⟨fault, rfl⟩
      | none => exact ⟨_, rfl⟩

theorem checkAllErrors_fails {α : Type} (backupMessage : String) (client : σ) :
    (checkAllErrors ssl backupMessage : Call Fault σ α).Fails client := by
  obtain ⟨fault, hexec⟩ := @exec_checkAllErrors σ ssl α backupMessage client
  exact ⟨fault, client, hexec⟩

def bufferEncryptedData (buffer : List UInt8) : Call Fault σ TLSIOResult := do
  let written ← Call.ofFunction (ssl.bioWriteAll buffer)
  if !written then checkAllErrors ssl "Unknown BIO write error."
  else pure ⟨.completed, buffer.length⟩

def readDecryptedData (size : Nat) : Call Fault σ (TLSIOResult × List UInt8) := do
  let (bytesRead, bytes) ← Call.ofFunction (ssl.sslRead (toInt size))
  if bytesRead ≤ 0 then checkAllErrors ssl "Unknown SSL read error."
  else pure (⟨.completed, bytesRead.toNat⟩, bytes)

theorem exec_bufferEncryptedData {buffer : List UInt8} {client : σ}
    (hwritten : (ssl.bioWriteAll buffer client).1 = true) :
    (bufferEncryptedData ssl buffer).exec client =
      (.ok ⟨.completed, buffer.length⟩, (ssl.bioWriteAll buffer client).2) := by
  unfold bufferEncryptedData
  rw [Call.exec_bind, Call.exec_ofFunction, hwritten]
  rfl

theorem exec_readDecryptedData_error {size : Nat} {client : σ}
    (hnone : (ssl.sslRead (toInt size) client).1.1 ≤ 0) :
    ∃ fault, (readDecryptedData ssl size).exec client =
      (.error fault, (ssl.sslRead (toInt size) client).2) := by
  unfold readDecryptedData
  rw [Call.exec_bind, Call.exec_ofFunction]
  dsimp only
  rw [if_pos hnone]
  exact exec_checkAllErrors ssl _ _

theorem exec_readDecryptedData_ok {size : Nat} {client : σ}
    (hsome : 0 < (ssl.sslRead (toInt size) client).1.1) :
    (readDecryptedData ssl size).exec client =
      (.ok (⟨.completed, (ssl.sslRead (toInt size) client).1.1.toNat⟩,
        (ssl.sslRead (toInt size) client).1.2), (ssl.sslRead (toInt size) client).2) := by
  unfold readDecryptedData
  rw [Call.exec_bind, Call.exec_ofFunction]
  dsimp only
  rw [if_neg (Int.not_le.mpr hsome), Call.exec_pure]

def bufferPlaintextData (buffer : List UInt8) : Call Fault σ TLSIOResult := do
  let bytesWritten ← Call.ofFunction (ssl.sslWrite buffer (toInt buffer.length))
  let client ← get
  if bytesWritten ≤ 0 then
    match ssl.sslGetError bytesWritten client with
    | .wantRead => pure ⟨.needToRead, 0⟩
    | .wantWrite => pure ⟨.needToWrite, 0⟩
    | _ => checkAllErrors ssl "Unknown SSL write error."
  else pure ⟨.completed, bytesWritten.toNat⟩

def readEncryptedData (size : Nat) : Call Fault σ (TLSIOResult × List UInt8) := do
  let (bytesRead, bytes) ← Call.ofFunction (ssl.bioRead (toInt size))
  let client ← get
  if bytesRead < 0 then
    if ssl.bioShouldRetry client then pure (⟨.again, 0⟩, [])
    else checkAllErrors ssl "Unknown BIO read error."
  else pure (⟨.completed, bytesRead.toNat⟩, bytes)

end TLSClientImpl

/-! ### The stream -/

/-- `writeBufferSize` is what `tls_buffer_size` was when the stream was made. -/
structure TLSStream (σ ρ : Type) where
  client : σ
  rawStream : ρ
  writeBufferSize : Nat

namespace TLSStream

variable {σ ρ : Type} (ssl : OpenSsl σ)

def onClient {α : Type} (call : Call Fault σ α) : Call Fault (TLSStream σ ρ) α :=
  call.within client fun client stream => { stream with client }

theorem exec_onClient {α : Type} {call : Call Fault σ α} {stream : TLSStream σ ρ}
    {result : Result α} {client : σ} (hexec : call.exec stream.client = (result, client)) :
    (onClient call).exec stream = (result, { stream with client }) := by
  unfold onClient
  rw [Call.exec_within, hexec]

def onRawStream {α : Type} (call : Call Fault ρ α) : Call Fault (TLSStream σ ρ) α :=
  call.within rawStream fun rawStream stream => { stream with rawStream }

/-- `read` into a buffer of the size, which the raw stream fills first. The result is what the front
of the buffer holds then. -/
def read (source : Io.Source ρ) (size : Nat) : Call Fault (TLSStream σ ρ) (List UInt8) := do
  let bytes ← onRawStream (source.read size)
  let res ← onClient (bufferEncryptedData ssl bytes)
  if res.isCompleted then
    if res.bytes ≠ bytes.length then
      raise .internal "Failed to buffer all encrypted data from the wire."
    else
      let (res, plaintext) ← onClient (readDecryptedData ssl size)
      if !res.isCompleted then raise .internal "Failed to read decrypted data from TLS client."
      else pure plaintext
  else if res.result = .again then pure []
  else raise .internal "Unknown failure buffering encrypted data."

variable (rawWrite : List UInt8 → Call Fault ρ Nat)

/-- The loop of `write`. A round that is not its last transfers a byte at least, unless the write
buffer takes none and the loop never ends. -/
def transfer (size : Nat) : (rounds transferred : Nat) → Call Fault (TLSStream σ ρ) Nat
  | 0, _ => throw .diverged
  | rounds + 1, transferred =>
      if size ≤ transferred then pure transferred
      else do
        let stream ← get
        let (res, bytes) ← onClient (readEncryptedData ssl stream.writeBufferSize)
        if !res.isCompleted then pure transferred
        else
          let _ ← onRawStream (rawWrite bytes)
          transfer size rounds (transferred + res.bytes)

def write (buffer : List UInt8) : Call Fault (TLSStream σ ρ) Nat := do
  let res ← onClient (bufferPlaintextData ssl buffer)
  if !res.isCompleted ∨ res.bytes ≠ buffer.length then
    raise .internal "Failed to buffer plaintext data into TLS client."
  else transfer ssl rawWrite buffer.length (buffer.length + 1) 0

/-- A raw stream, with all the bytes that its writes were given. -/
def handing (bytes : List UInt8) : Call Fault (ρ × List UInt8) Nat := do
  modify fun handed => (handed.1, handed.2 ++ bytes)
  (rawWrite bytes).within Prod.fst fun raw handed => (raw, handed.2)

end TLSStream

end Liblw.Net
