import KasmVNC.Rfb.RegionObjects
import KasmVNC.Rfb.PartialUpdate
import KasmVNC.Rfb.Connection
import KasmVNC.Network.WebsocketForward
import KasmVNC.Network.WebsocketReturn
import KasmVNC.Network.AllOrNothing
import KasmVNC.Rfb.CacheCoherent
import KasmVNC.Rfb.PeerIdentity
import KasmVNC.Rfb.UdpUpgrade
import KasmVNC.Rfb.QueryConnect
import KasmVNC.Rfb.WatermarkDelivery
import KasmVNC.Network.UdpReassembly
import KasmVNC.Rfb.VideoCoverage
import KasmVNC.Rfb.UdpBuffer
import KasmVNC.Rfb.ContinuousUpdates
import KasmVNC.Rfb.ScrollStride
import KasmVNC.Rfb.ScrollInvalidate
import KasmVNC.Rfb.SecurityReply
import KasmVNC.Unix.RandrDryRun
import KasmVNC.Unix.ScreenLayout
import KasmVNC.Rfb.CongestionEta
import KasmVNC.Rfb.CopyInPlace
import KasmVNC.Rfb.SolidRects
import KasmVNC.Rfb.LosslessRefresh
import KasmVNC.Rfb.EncCacheMap
import KasmVNC.Rfb.CompactLength
import KasmVNC.Rfb.PixelConversion
import KasmVNC.Rfb.AnalyseRect
import KasmVNC.Rfb.LineEndings
import KasmVNC.Rfb.UnicodeRepair
import KasmVNC.Network.QueryString
import KasmVNC.Rfb.ClipboardLog
import KasmVNC.Network.BottleneckGroups
import KasmVNC.Rfb.Timer
import KasmVNC.Rfb.Watermark
import KasmVNC.Rfb.SetPixelBuffer
import KasmVNC.Rfb.RelativePointer
import KasmVNC.Network.HttpBlacklist
import KasmVNC.Network.TcpFilter
import KasmVNC.Rdr.BufferedInStream
import KasmVNC.Rfb.Dither
import KasmVNC.Rfb.VideoStats
import KasmVNC.Network.StunReply
import KasmVNC.Network.Screenshot
import KasmVNC.Unix.ConvertSelection
import KasmVNC.Rfb.UnixRelay
import KasmVNC.Rfb.SessionList
import KasmVNC.Rfb.ScrollIndex
import KasmVNC.Unix.KeysReleased
import KasmVNC.Rfb.LossyTracking
import KasmVNC.Rfb.ScrollFreeDelivery
import KasmVNC.Rfb.DecodeRuns
