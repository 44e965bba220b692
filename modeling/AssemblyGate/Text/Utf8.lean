/-!
# UTF-8

Bytes are read as characters one scalar value at a time.  Where the bytes stop
being well formed, the longest start of a character that is there counts as one
error, and reading goes on behind it.
-/

namespace AssemblyGate.Text

/--
For the first byte of a character of several bytes: how many bytes follow it, and
the least and greatest byte that may follow it directly.
-/
def leadShape? (lead : UInt8) : Option (Nat × UInt8 × UInt8) :=
  if lead < 0xc2 then none
  else if lead < 0xe0 then some (1, 0x80, 0xbf)
  else if lead = 0xe0 then some (2, 0xa0, 0xbf)
  else if lead = 0xed then some (2, 0x80, 0x9f)
  else if lead < 0xf0 then some (2, 0x80, 0xbf)
  else if lead = 0xf0 then some (3, 0x90, 0xbf)
  else if lead < 0xf4 then some (3, 0x80, 0xbf)
  else if lead = 0xf4 then some (3, 0x80, 0x8f)
  else none

def isContinuation (byte : UInt8) : Bool := 0x80 ≤ byte && byte ≤ 0xbf

private def payload (byte : UInt8) : Nat := byte.toNat % 0x40

/-- The characters of a text, with `none` for each error. -/
def scalars : List UInt8 → List (Option Char)
  | [] => []
  | lead :: rest =>
      if lead < 0x80 then
        some (Char.ofNat lead.toNat) :: scalars rest
      else
        match leadShape? lead, rest with
        | some (more, least, greatest), second :: rest =>
            if least ≤ second ∧ second ≤ greatest then
              if more = 1 then
                some (Char.ofNat (lead.toNat % 0x20 * 0x40 + payload second)) :: scalars rest
              else
                match rest with
                | third :: rest =>
                    if isContinuation third then
                      if more = 2 then
                        some (Char.ofNat
                          ((lead.toNat % 0x10 * 0x40 + payload second) * 0x40 + payload third)) ::
                          scalars rest
                      else
                        match rest with
                        | fourth :: rest =>
                            if isContinuation fourth then
                              some (Char.ofNat
                                (((lead.toNat % 0x08 * 0x40 + payload second) * 0x40 +
                                  payload third) * 0x40 + payload fourth)) :: scalars rest
                            else
                              none :: scalars (fourth :: rest)
                        | [] => [none]
                    else
                      none :: scalars (third :: rest)
                | [] => [none]
            else
              none :: scalars (second :: rest)
        | _, rest => none :: scalars rest

def decode? (bytes : List UInt8) : Option String :=
  ((scalars bytes).mapM id).map String.ofList

def decodeLossy (bytes : List UInt8) : String :=
  String.ofList ((scalars bytes).map fun scalar => scalar.getD '\uFFFD')

end AssemblyGate.Text
