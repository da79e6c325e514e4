import BroadcomWl.Lib.Packed
import BroadcomWl.Lib.Strtoul

/-!
# Channel specifications

`bcmwifi_channels.c` packs a channel, a band, a bandwidth and the position of the control channel
into 16 bits, and converts between these chanspecs and text. The build is the one with
`D11AC_IOTYPES`, for a machine whose `unsigned int` and `unsigned long` have 32 bits.

A string is the list of its characters, without the zero behind them: where the source reads that
zero, `peek` is `none`. -/

namespace BroadcomWl.Wlconf

open BroadcomWl.Lib (strtoul)

/-! ## Fields -/

def chMax2gChannel : Nat := 14
def ch80mhzApart : Nat := 16
def maxchannel : Nat := 224
def chanspecStrLen : Nat := 20

def wlChanspecChanMask : Nat := 0x00ff
def wlChanspecChan1Mask : Nat := 0x000f
def wlChanspecChan2Mask : Nat := 0x00f0
def wlChanspecChan2Shift : Nat := 4
def wlChanspecCtlSbMask : Nat := 0x0700
def wlChanspecCtlSbShift : Nat := 8
def wlChanspecCtlSbLll : Nat := 0x0000
def wlChanspecCtlSbLlu : Nat := 0x0100
def wlChanspecCtlSbLuu : Nat := 0x0300
def wlChanspecBwMask : Nat := 0x3800
def wlChanspecBwShift : Nat := 11
def wlChanspecBw20 : Nat := 0x1000
def wlChanspecBw40 : Nat := 0x1800
def wlChanspecBw80 : Nat := 0x2000
def wlChanspecBw160 : Nat := 0x2800
def wlChanspecBw8080 : Nat := 0x3000
def wlChanspecBandMask : Nat := 0xc000
def wlChanspecBand2g : Nat := 0x0000
def wlChanspecBand5g : Nat := 0xc000

/-- `LOWER_20_SB`. -/
def lower20Sb (channel : Nat) : Nat := if 2 < channel then channel - 2 else 0

/-- `UPPER_20_SB`. -/
def upper20Sb (channel : Nat) : Nat := if channel < maxchannel - 2 then channel + 2 else 0

def chspecChannel (chspec : Nat) : Nat := chspec &&& wlChanspecChanMask
def chspecChan1 (chspec : Nat) : Nat := chspec &&& wlChanspecChan1Mask
/-- `CHSPEC_CHAN2`: the field is not shifted down. -/
def chspecChan2 (chspec : Nat) : Nat := chspec &&& wlChanspecChan2Mask
def chspecBand (chspec : Nat) : Nat := chspec &&& wlChanspecBandMask
def chspecCtlSb (chspec : Nat) : Nat := chspec &&& wlChanspecCtlSbMask
def chspecBw (chspec : Nat) : Nat := chspec &&& wlChanspecBwMask

/-- `CHSPEC_SB_UPPER`. -/
def chspecSbUpper (chspec : Nat) : Bool :=
  chspecCtlSb chspec = wlChanspecCtlSbLlu && chspecBw chspec = wlChanspecBw40

/-! ## Tables -/

def wfChspecBwStr : List (List Char) :=
  [['5'], ['1', '0'], ['2', '0'], ['4', '0'], ['8', '0'], ['1', '6', '0'],
    ['8', '0', '+', '8', '0'], ['n', 'a']]

def wfChspecBwMhz : List Nat := [5, 10, 20, 40, 80, 160, 160]

/-- 40MHz channels in 5GHz band -/
def wf5g40mChans : List Nat := [38, 46, 54, 62, 102, 110, 118, 126, 134, 142, 151, 159]

/-- 80MHz channels in 5GHz band -/
def wf5g80mChans : List Nat := [42, 58, 106, 122, 138, 155]

/-- 160MHz channels in 5GHz band -/
def wf5g160mChans : List Nat := [50, 114]

/-- A difference of two `uint`. -/
@[irreducible] def subU32 (a b : Nat) : Nat := (a + 2 ^ 32 - b) % 2 ^ 32

/-- `bw_chspec_to_mhz`. -/
def bwChspecToMhz (chspec : Nat) : Nat :=
  wfChspecBwMhz.getD (chspecBw chspec >>> wlChanspecBwShift) 0

/-- `center_chan_to_edge`: the channel count from the center channel to the channel at the edge. -/
def centerChanToEdge (bw : Nat) : Nat := subU32 bw 20 / 2 / 5 % 256

/-- `channel_low_edge`. -/
def channelLowEdge (centerCh bw : Nat) : Nat := subU32 centerCh (centerChanToEdge bw) % 256

/-- `channel_to_sb`: the side band of the control channel, `none` for -1. -/
def channelToSb (centerCh ctlCh bw : Nat) : Option Nat :=
  let lowest := channelLowEdge centerCh bw
  if subU32 ctlCh lowest % 4 ≠ 0 then none
  else
    let sb := subU32 ctlCh lowest / 4
    if bw / 20 ≤ sb then none else some sb

/-- `channel_to_ctl_chan`: the control channel of a side band. -/
def channelToCtlChan (centerCh bw sb : Nat) : Nat := (channelLowEdge centerCh bw + sb * 4) % 256

/-- `channel_80mhz_to_id`, `none` for -1. -/
def channel80mhzToId (ch : Nat) : Option Nat := wf5g80mChans.findIdx? (· = ch)

/-! ## Checks -/

/-- `wf_chspec_malformed`. -/
def wfChspecMalformed (chanspec : Nat) : Bool :=
  let bw := chspecBw chanspec
  let ch := chspecChannel chanspec
  let sbMalformed : Bool :=
    if bw = wlChanspecBw20 then chspecCtlSb chanspec ≠ wlChanspecCtlSbLll
    else if bw = wlChanspecBw40 then wlChanspecCtlSbLlu < chspecCtlSb chanspec
    else if bw = wlChanspecBw80 then wlChanspecCtlSbLuu < chspecCtlSb chanspec
    else false
  if chspecBand chanspec = wlChanspecBand2g then
    if bw ≠ wlChanspecBw20 ∧ bw ≠ wlChanspecBw40 then true else sbMalformed
  else if chspecBand chanspec = wlChanspecBand5g then
    if bw = wlChanspecBw8080 then
      let ch1Id := chspecChan1 chanspec
      let ch2Id := chspecChan2 chanspec
      if wf5g80mChans.length ≤ ch1Id ∨ wf5g80mChans.length ≤ ch2Id then true
      else if ch2Id ≤ ch1Id then true
      else sbMalformed
    else if bw = wlChanspecBw20 ∨ bw = wlChanspecBw40 ∨ bw = wlChanspecBw80 ∨
        bw = wlChanspecBw160 then
      if maxchannel < ch then true else sbMalformed
    else true
  else true

/-- `wf_chspec_valid`. -/
def wfChspecValid (chanspec : Nat) : Bool :=
  let bw := chspecBw chanspec
  let ch := chspecChannel chanspec
  if wfChspecMalformed chanspec then false
  else if chspecBand chanspec = wlChanspecBand2g then
    if bw = wlChanspecBw20 then 1 ≤ ch && ch ≤ 14
    else if bw = wlChanspecBw40 then 3 ≤ ch && ch ≤ 11
    else false
  else if chspecBand chanspec = wlChanspecBand5g then
    if bw = wlChanspecBw8080 then
      let ch1 := wf5g80mChans.getD (chspecChan1 chanspec) 0
      let ch2 := wf5g80mChans.getD (chspecChan2 chanspec) 0
      ch1 + ch80mhzApart < ch2
    else if bw = wlChanspecBw20 then
      -- each side of the legal 40MHz channels, and the legacy JP channels
      wf5g40mChans.any (fun center => ch = lower20Sb center || ch = upper20Sb center) ||
        (ch = 34 || ch = 38 || ch = 42 || ch = 46)
    else if bw = wlChanspecBw40 then wf5g40mChans.any (ch = ·)
    else if bw = wlChanspecBw80 then wf5g80mChans.any (ch = ·)
    else if bw = wlChanspecBw160 then wf5g160mChans.any (ch = ·)
    else false
  else false

/-- `wf_chspec_ctlchan`: the control channel. -/
def wfChspecCtlchan (chspec : Nat) : Nat :=
  if chspecBw chspec = wlChanspecBw20 then chspecChannel chspec
  else
    let sb := chspecCtlSb chspec >>> wlChanspecCtlSbShift
    if chspecBw chspec = wlChanspecBw8080 then
      if sb < 4 then channelToCtlChan (wf5g80mChans.getD (chspecChan1 chspec) 0) 80 sb
      else channelToCtlChan (wf5g80mChans.getD (chspecChan2 chspec) 0) 80 (sb - 4)
    else channelToCtlChan (chspecChannel chspec) (bwChspecToMhz chspec) sb

/-! ## From chanspec to text -/

/-- `%d` of a number that is not negative. -/
def decimal (n : Nat) : List Char := Nat.toDigits 10 n

/-- `wf_chspec_ntoa`, `none` for `NULL`. `CHANSPEC_NEW_40MHZ_FORMAT` is an option of the build. -/
def wfChspecNtoa (new40MhzFormat : Bool) (chspec : Nat) : Option (List Char) :=
  if wfChspecMalformed chspec then none
  else
    let is2g := chspecBand chspec = wlChanspecBand2g
    let is5g := chspecBand chspec = wlChanspecBand5g
    let band : List Char :=
      if (is2g ∧ chMax2gChannel < chspecChannel chspec) ∨
          (is5g ∧ chspecChannel chspec ≤ chMax2gChannel) then
        if is2g then ['2', 'g'] else ['5', 'g']
      else []
    let ctlChan := wfChspecCtlchan chspec
    let is40 := chspecBw chspec = wlChanspecBw40
    let bw : List Char := wfChspecBwStr.getD (chspecBw chspec >>> wlChanspecBwShift) []
    let sb : List Char := if chspecSbUpper chspec then ['u'] else ['l']
    let buf : List Char :=
      if chspecBw chspec = wlChanspecBw20 then band ++ decimal ctlChan
      else if chspecBw chspec ≠ wlChanspecBw8080 then
        if new40MhzFormat then
          band ++ decimal ctlChan ++ ['/'] ++ bw ++ (if is40 ∧ is2g then sb else [])
        else if is40 then band ++ decimal ctlChan ++ sb
        else band ++ decimal ctlChan ++ ['/'] ++ bw
      else
        let chan1 := chspec &&& wlChanspecChan1Mask
        let chan2 := (chspec &&& wlChanspecChan2Mask) >>> wlChanspecChan2Shift
        decimal ctlChan ++ ['/', '8', '0', '+', '8', '0', '/'] ++
          decimal (wf5g80mChans.getD chan1 0) ++ ['-'] ++
          decimal (wf5g80mChans.getD chan2 0)
    some (buf.take (chanspecStrLen - 1))

/-! ## From text to chanspec -/

/-- `read_uint`: `none` where no number is read. An `unsigned long` fits into the `unsigned int`. -/
def readUint (p : List Char) : Option (Nat × List Char) := strtoul p

/-- `tolower((int)a[0])`, `none` at the end of the string. -/
def peek (a : List Char) : Option Char := a.head?.map Char.toLower

/-- These characters and no others come next. -/
def consume : List Char → List Char → Option (List Char)
  | [], a => some a
  | _ :: _, [] => none
  | c :: cs, d :: a => if d = c then consume cs a else none

/-- The chanspec value of a band, which must be 2 or 5. -/
def bandChspec (num : Nat) : Option Nat :=
  if num = 2 then some wlChanspecBand2g else if num = 5 then some wlChanspecBand5g else none

/-- The band and the channel number: `chspec_band`, `ctl_ch` and the text behind them. -/
def readBand (a : List Char) : Option (Nat × Nat × List Char) := do
  let (num, a) ← readUint a
  if peek a = some 'g' then
    let band ← bandChspec num
    let (ctlCh, a) ← readUint a.tail
    return (band, ctlCh, a)
  else return (if num ≤ chMax2gChannel then wlChanspecBand2g else wlChanspecBand5g, num, a)

/-- What `wf_chspec_aton` has read behind the channel number. -/
structure Width where
  bw : Nat
  chspecBw : Nat
  /-- `sb_ul`, and whether it is `u` -/
  sbUl : Option Bool
  ch1 : Nat
  ch2 : Nat
deriving DecidableEq, Repr

/-- The chanspec value of a bandwidth. -/
def bwChspec (bw : Nat) : Option Nat :=
  if bw = 20 then some wlChanspecBw20
  else if bw = 40 then some wlChanspecBw40
  else if bw = 80 then some wlChanspecBw80
  else if bw = 160 then some wlChanspecBw160
  else none

/-- The `u` or `l` of a sideband. -/
def sideLetter (c : Char) : Option Bool :=
  if c = 'u' then some true else if c = 'l' then some false else none

/-- Behind the `+` of 80+80: `80/` and the two segments. -/
def readPair (bw : Nat) (a : List Char) : Option (Width × List Char) := do
  let a ← consume ['8', '0', '/'] a
  let (ch1, a) ← readUint a
  let a ← consume ['-'] a
  let (ch2, a) ← readUint a
  return (⟨bw, wlChanspecBw8080, none, ch1, ch2⟩, a)

/-- Behind the `/`: the bandwidth, and what may follow it. -/
def readBandwidth (chspecBand : Nat) (a : List Char) : Option (Width × List Char) := do
  let (bw, a) ← readUint a
  let chspecBw ← bwChspec bw
  match if chspecBand = wlChanspecBand2g ∧ bw = 40 then (peek a).bind sideLetter else none with
  | some upper => return (⟨bw, chspecBw, some upper, 0, 0⟩, a.tail)
  | none => if peek a = some '+' then readPair bw a.tail else return (⟨bw, chspecBw, none, 0, 0⟩, a)

/-- What follows the channel number, up to `done_read`. -/
def readWidth (chspecBand : Nat) (a : List Char) : Option (Width × List Char) :=
  match peek a with
  | none => some (⟨20, wlChanspecBw20, none, 0, 0⟩, a)
  | some c =>
    match sideLetter c with
    | some upper => some (⟨20, wlChanspecBw40, some upper, 0, 0⟩, a.tail)
    | none => if c = '/' then readBandwidth chspecBand a.tail else none

/-- The center channels of a bandwidth in the 5GHz band. -/
def centerChans (chspecBw : Nat) : List Nat :=
  if chspecBw = wlChanspecBw40 then wf5g40mChans
  else if chspecBw = wlChanspecBw80 then wf5g80mChans
  else if chspecBw = wlChanspecBw160 then wf5g160mChans
  else []

/-- The first center channel that the control channel fits, and its side band. -/
def findCenter (chans : List Nat) (ctlCh bw : Nat) : Option (Nat × Nat) :=
  chans.findSome? fun center => (channelToSb center ctlCh bw).map fun sb => (center, sb)

/-- `chspec_ch` and `chspec_sb`. -/
def chspecParts (ctlCh : Nat) (w : Width) : Option (Nat × Nat) :=
  if w.sbUl = some false then some (upper20Sb ctlCh, wlChanspecCtlSbLll)
  else if w.sbUl = some true then some (lower20Sb ctlCh, wlChanspecCtlSbLlu)
  else if w.chspecBw = wlChanspecBw20 then some (ctlCh, 0)
  else if w.chspecBw ≠ wlChanspecBw8080 then do
    let (center, sb) ← findCenter (centerChans w.chspecBw) ctlCh w.bw
    return (center, sb <<< wlChanspecCtlSbShift)
  else do
    if w.ch2 ≤ w.ch1 then none
    let ch1Id ← channel80mhzToId w.ch1
    let ch2Id ← channel80mhzToId w.ch2
    let ch := ch1Id ||| ch2Id <<< wlChanspecChan2Shift
    match channelToSb w.ch1 ctlCh w.bw with
    | some sb => return (ch, sb <<< wlChanspecCtlSbShift)
    | none =>
      let sb ← channelToSb w.ch2 ctlCh w.bw
      return (ch, (sb + 4) <<< wlChanspecCtlSbShift)

/-- `wf_chspec_aton` behind `done_read`, once the string has ended: the parts are put together. -/
def chspecPack (chspecBand ctlCh : Nat) (w : Width) : Option Nat := do
  let (ch, sb) ← chspecParts ctlCh w
  let chspec := (ch ||| chspecBand ||| w.chspecBw ||| sb) % 2 ^ 16
  if wfChspecMalformed chspec then none else return chspec

/-- `wf_chspec_aton`, which returns 0 on error. -/
def wfChspecAton (a : List Char) : Nat :=
  Option.getD (do
    let (chspecBand, ctlCh, a) ← readBand a
    let (w, a) ← readWidth chspecBand a
    -- skip trailing white space; must be end of string
    if a.dropWhile (· = ' ') ≠ [] then none
    chspecPack chspecBand ctlCh w) 0

end BroadcomWl.Wlconf
