import Zmux.Wire.Scan
import Zmux.Wire.Layout
import Zmux.Wire.Framing
import Zmux.Wire.Alike
import Zmux.Wire.Intervals
import Zmux.Codec.FrameDecoder
import Zmux.Codec.Records
import Zmux.Codec.Crypto
import Zmux.Codec.Preamble
import Zmux.Codec.FrameRanges
import Zmux.Codec.TraceFile
import Zmux.Codec.Annotate
import Zmux.Proofs.ParameterBlock
import Zmux.Proofs.FrameFields
import Zmux.Proofs.FrameTypes
import Zmux.Proofs.FrameDecoding
import Zmux.Proofs.Payloads
import Zmux.Proofs.FrameEncoding
import Zmux.Proofs.Normalisation
import Zmux.Proofs.RoundTrip
import Zmux.Proofs.ChunkedReading
import Zmux.Proofs.RecordStreams
import Zmux.Proofs.Messages
import Zmux.Proofs.FirstRecord
import Zmux.Proofs.ParameterFaults
import Zmux.Proofs.FieldFaults
import Zmux.Proofs.FrameFaults
import Zmux.Proofs.Datagrams
import Zmux.Proofs.JoinMac
import Zmux.Proofs.Gates
import Zmux.Proofs.SentParameters
import Zmux.Proofs.ParameterRules
import Zmux.Proofs.ParameterOrder
import Zmux.Proofs.SelfDelimiting
import Zmux.Proofs.FrameWindow
import Zmux.Proofs.FirstVerdict
import Zmux.Proofs.JoinRoundTrip
import Zmux.Proofs.PreambleReading
import Zmux.Proofs.PreambleContents
import Zmux.Proofs.AckSnapshot
import Zmux.Proofs.FlowPrefix
import Zmux.Proofs.VarintCodec
import Zmux.Proofs.FrameRanges
import Zmux.Proofs.KeyExpansion
import Zmux.Proofs.JsonForm
import Zmux.Proofs.TraceCounts
import Zmux.Proofs.Placeholders
import Zmux.Proofs.TraceFile
import Zmux.Proofs.FieldTables
import Zmux.Codec.Corpus
import Zmux.Proofs.Corpus
import Zmux.Proofs.TraceRuns
import Zmux.Proofs.TraceDeliveries
import Zmux.Proofs.TraceSuite
import Zmux.Proofs.Render
import Zmux.Proofs.AlpnAlias
import Zmux.Proofs.JsonText
import Zmux.Proofs.TraceTexts
import Zmux.Proofs.TraceSpelling
