import AimDb.Layout.Cells

/-!
# The build-info section

The build script encodes a section image, a tool may write its post-link region
afterwards, and the program and its tools parse it. A panic is `none`.
-/

namespace AimDb.BuildInfo

open Layout

abbrev Bytes := List UInt8

/-- `AIMDB-BI` -/
def magic : Bytes := [0x41, 0x49, 0x4d, 0x44, 0x42, 0x2d, 0x42, 0x49]

def format : ℕ := 1

def headerLen : ℕ := 32

def sectionMax : ℕ := 64 * 1024

def payloadMax : ℕ := 4 * 1024

def erased : UInt8 := 0xff

/-- The width of the target's `usize`; `SECTION_MAX` is a constant of this type. -/
structure Usize where
  max : ℕ
  holdsSection : sectionMax ≤ max

inductive Error
  | invalid (message : String)
  deriving DecidableEq, Repr

/-- The section image, with an erased region of `postLinkLen` bytes. -/
def encode (usize : Usize) (payload : Bytes) (postLinkLen : ℕ) : Option (Except Error Bytes) :=
  if payloadMax < payload.length then
    some (.error (.invalid s!"the payload is {payload.length} bytes, at most {payloadMax}"))
  else
    let regionOff := (headerLen + payload.length + 7) / 8 * 8
    let totalLen := regionOff + postLinkLen
    if usize.max < totalLen ∨ sectionMax < totalLen then
      some (.error (.invalid
        s!"a {postLinkLen}-byte post-link region makes the section larger than {sectionMax} bytes"))
    else do
      let out := List.replicate totalLen 0
      let out ← overwrite out 0 magic
      let out ← overwrite out 8 (leBytes 2 format)
      let out ← overwrite out 10 (leBytes 2 headerLen)
      let out ← overwrite out 12 (leBytes 4 payload.length)
      let out ← overwrite out 16 (leBytes 4 regionOff)
      let out ← overwrite out 20 (leBytes 4 postLinkLen)
      let out ← overwrite out 24 (leBytes 4 totalLen)
      let out ← overwrite out headerLen payload
      let out ← fillFrom out regionOff erased
      return .ok out

/-- The image with data written behind its length into the region; `tail` is the
rest of the region. -/
def writeRegion (image : Bytes) (postLinkLen : ℕ) (data tail : Bytes) : Bytes :=
  image.take (image.length - postLinkLen) ++ (leBytes 4 data.length ++ (data ++ tail))

inductive ParseError
  | noMagic
  | unknownFormat (format : ℕ)
  | truncated
  | inconsistent
  deriving DecidableEq, Repr

structure Section where
  format : ℕ
  payload : Bytes
  region : Bytes
  deriving DecidableEq, Repr

/-- A sum of two `u64`; an overflow panics. -/
def addU64 (a b : ℕ) : Option ℕ := if a + b < 2 ^ 64 then some (a + b) else none

def Usize.cast (usize : Usize) (n : ℕ) : ℕ := n % (usize.max + 1)

structure Fields where
  headerLen : ℕ
  payloadLen : ℕ
  regionOff : ℕ
  regionLen : ℕ
  totalLen : ℕ
  deriving DecidableEq, Repr

/-- The header's checks, in order, the later sums only where the earlier checks pass. -/
def Fields.inconsistent (fields : Fields) : Option Bool :=
  if fields.headerLen < BuildInfo.headerLen then some true
  else do
    let payloadEnd ← addU64 fields.headerLen fields.payloadLen
    if fields.regionOff < payloadEnd then return true
    else if fields.regionOff % 8 ≠ 0 then return true
    else
      let regionEnd ← addU64 fields.regionOff fields.regionLen
      return regionEnd ≠ fields.totalLen || sectionMax < fields.totalLen

def readFields (header : Bytes) : Option Fields := do
  let headerLen ← fieldAt 2 header 10
  let payloadLen ← fieldAt 4 header 12
  let regionOff ← fieldAt 4 header 16
  let regionLen ← fieldAt 4 header 20
  let totalLen ← fieldAt 4 header 24
  return ⟨headerLen, payloadLen, regionOff, regionLen, totalLen⟩

/-- The parts of `bytes` the fields name. -/
def Fields.slice (usize : Usize) (fields : Fields) (format : ℕ) (bytes : Bytes) :
    Option (Except ParseError Section) := do
  let payloadEnd ← addU64 fields.headerLen fields.payloadLen
  match getRange bytes (usize.cast fields.headerLen) (usize.cast payloadEnd),
      getRange bytes (usize.cast fields.regionOff) (usize.cast fields.totalLen) with
  | some payload, some region => return .ok ⟨format, payload, region⟩
  | _, _ => return .error .truncated

/-- Parse a section at the start of `bytes`. -/
def parse (usize : Usize) (bytes : Bytes) : Option (Except ParseError Section) :=
  if getRange bytes 0 magic.length ≠ some magic then some (.error .noMagic)
  else if bytes.length < headerLen then some (.error .truncated)
  else do
    let header := bytes.take headerLen
    let format ← fieldAt 2 header 8
    if format ≠ BuildInfo.format then return .error (.unknownFormat format)
    else
      let fields ← readFields header
      let inconsistent ← fields.inconsistent
      if inconsistent then return .error .inconsistent
      else if bytes.length < fields.totalLen then return .error .truncated
      else fields.slice usize format bytes

inductive PostLink
  | none
  | erased
  | written (data : Bytes)
  | malformed
  deriving DecidableEq, Repr

def Section.postLink (usize : Usize) (parsed : Section) : PostLink :=
  if parsed.region = [] then .none
  else if parsed.region.length < 4 then .malformed
  else if parsed.region.take 4 = List.replicate 4 BuildInfo.erased then .erased
  else
    let len := leValue (parsed.region.take 4)
    let rest := parsed.region.drop 4
    if len ≤ usize.max ∧ len ≤ rest.length then .written (rest.take len) else .malformed

end AimDb.BuildInfo
