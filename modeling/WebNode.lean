import WebNode.Bmalloc.AlignedAllocation
import WebNode.Bmalloc.ExtraLarge
import WebNode.Bmalloc.LargeObjects
import WebNode.Bmalloc.SmallMedium
import WebNode.Css.SelectorFilter
import WebNode.Graphics.TimeRangeAssignment
import WebNode.IndexedDb.KeyOrder
import WebNode.Ipc.PacketSize
import WebNode.Ipc.RoundTrip
import WebNode.Jsc.InstructionStream
import WebNode.MediaSource.PresentationRanges
import WebNode.MediaSource.SampleMap
import WebNode.Network.ContentDisposition
import WebNode.NodeProxy.ArgumentList
import WebNode.Platform.ChunkReader
import WebNode.Platform.DateParsing
import WebNode.Platform.DecimalArithmetic
import WebNode.Platform.DecimalDivision
import WebNode.Platform.DecimalRounding
import WebNode.Platform.DotSegments
import WebNode.Platform.LayoutUnit
import WebNode.Platform.QuotedPrintable
import WebNode.UiProcess.BackForwardRuns
import WebNode.WebDatabase.CoordinatorShutdown
import WebNode.WebSockets.Channel
import WebNode.WebSockets.Frame
import WebNode.Wtf.DequeTransfer
import WebNode.Wtf.HashTableLoad
import WebNode.Wtf.MediaTimeOrder
import WebNode.Wtf.MediaTimeSums
import WebNode.Wtf.RedBlackSearch
import WebNode.Wtf.Sha1
import WebNode.Wtf.Utf8Hash
import WebNode.Yarr.IgnoreCase
import WebNode.Yarr.RepeatCounts
