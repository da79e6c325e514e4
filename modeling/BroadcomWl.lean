import BroadcomWl.Lib.Wp
import BroadcomWl.Lib.Counter
import BroadcomWl.Lib.Run
import BroadcomWl.Lib.Access
import BroadcomWl.Lib.Reader
import BroadcomWl.Lib.Chain
import BroadcomWl.Lib.Lex
import BroadcomWl.Lib.Tlv
import BroadcomWl.Lib.SlotTable
import BroadcomWl.Lib.Packed
import BroadcomWl.Lib.Strtoul
import BroadcomWl.Lib.CString
import BroadcomWl.Lib.KeyWrap
import BroadcomWl.Lib.Memory
import BroadcomWl.Lib.BlockModes
import BroadcomWl.Lib.BitRing
import BroadcomWl.Crypto.AesCbc
import BroadcomWl.Crypto.AesCcm
import BroadcomWl.Crypto.AesCcmp
import BroadcomWl.Crypto.AesCmac
import BroadcomWl.Lib.Entries
import BroadcomWl.Crypto.Hash
import BroadcomWl.Crypto.Cipher
import BroadcomWl.Crypto.KeyWrap
import BroadcomWl.Crypto.Prf
import BroadcomWl.Crypto.Passhash
import BroadcomWl.Nas.Proto
import BroadcomWl.Nas.State
import BroadcomWl.Nas.Station
import BroadcomWl.Nas.Keys
import BroadcomWl.Nas.Wpa
import BroadcomWl.Nas.Supplicant
import BroadcomWl.Nas.Dispatch
import BroadcomWl.Nas.Guards
import BroadcomWl.Nas.Automaton
import BroadcomWl.Nas.RefineKeys
import BroadcomWl.Nas.RefineSta
import BroadcomWl.Nas.RefineWpa
import BroadcomWl.Nas.RefineFrame
import BroadcomWl.Nas.RefineSup
import BroadcomWl.Nas.Refine
import BroadcomWl.Nas.SavedIe
import BroadcomWl.Nas.Mode
import BroadcomWl.Nas.RetxTimer
import BroadcomWl.Nas.Replay
import BroadcomWl.Nas.GroupKey
import BroadcomWl.Nas.Authorize
import BroadcomWl.Nas.Discard
import BroadcomWl.Nas.PairwiseKey
import BroadcomWl.Nas.RadiusRequest
import BroadcomWl.Nas.Table
import BroadcomWl.Nas.TableInv
import BroadcomWl.Shadow.Timer
import BroadcomWl.Shadow.TimerPending
import BroadcomWl.Shadow.TimerAnswer
import BroadcomWl.Shadow.Tasklet
import BroadcomWl.Shadow.TaskletWakeup
import BroadcomWl.Shadow.Netdev
import BroadcomWl.Shadow.NetdevMap
import BroadcomWl.Shadow.NetdevQueue
import BroadcomWl.Shadow.Skb
import BroadcomWl.Shadow.SkbSync
import BroadcomWl.Shadow.SkbPool
import BroadcomWl.Shadow.SkbOwner
import BroadcomWl.Shadow.SkbShared
import BroadcomWl.Nas.Effects
import BroadcomWl.Nas.EffectsWpa
import BroadcomWl.Nas.EffectsStep
import BroadcomWl.Nas.Nonce
import BroadcomWl.Nas.GtkLength
import BroadcomWl.Nas.Countermeasures
import BroadcomWl.Nas.ResponseCheck
import BroadcomWl.Nas.RadiusWalk
import BroadcomWl.Nas.Rc4Key
import BroadcomWl.Nas.RadiusRelay
import BroadcomWl.Nas.EapForward
import BroadcomWl.Nas.Element
import BroadcomWl.Nas.ParseIe
import BroadcomWl.Nas.CheckIe
import BroadcomWl.Nas.RsnCap
import BroadcomWl.Nas.BuildIe
import BroadcomWl.Nas.AttributeWalk
import BroadcomWl.Nas.Workspace
import BroadcomWl.Nas.FailClosed
import BroadcomWl.Shadow.Pci
import BroadcomWl.Shadow.PciIds
import BroadcomWl.Shadow.Nvram
import BroadcomWl.Tools.Python
import BroadcomWl.Eapd.Station
import BroadcomWl.Eapd.StationTable
import BroadcomWl.Eapd.Work
import BroadcomWl.Eapd.AssocIe
import BroadcomWl.Eapd.Recv
import BroadcomWl.Eapd.EapolRelay
import BroadcomWl.Eapd.AssocMode
import BroadcomWl.Eapd.Workspace
import BroadcomWl.Eapd.DynamicInterface
import BroadcomWl.Eapd.SocketOwner
import BroadcomWl.Tools.RenameNeeded
import BroadcomWl.Tools.RelicenseModinfo
import BroadcomWl.Wlconf.Chanspec
import BroadcomWl.Wlconf.ChanspecFields
import BroadcomWl.Wlconf.ChanspecGrammar
import BroadcomWl.Wlconf.ChanspecText
import BroadcomWl.Crypto.Rc4
import BroadcomWl.Crypto.Mppe
import BroadcomWl.Wlconf.MacList
import BroadcomWl.Lib.Words
import BroadcomWl.Wlconf.VifAddr
import BroadcomWl.Wlconf.Wme
import BroadcomWl.Eapd.EventInit
import BroadcomWl.Crypto.Evaluate
import BroadcomWl.Crypto.Md5Context
import BroadcomWl.Crypto.Sha1Context
import BroadcomWl.Lib.Ring
import BroadcomWl.Shared.Dma
import BroadcomWl.Shared.DmaTx
import BroadcomWl.Crypto.Rijndael
import BroadcomWl.Crypto.WrapBlocks
import BroadcomWl.Shared.PktQueue
