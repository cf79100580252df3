import AsapSketchlib.OctoBarrier
import AsapSketchlib.UnivMonGSum
import AsapSketchlib.TumblingAnswers
import AsapSketchlib.ElasticTrees
import AsapSketchlib.ElasticOctoGuarantee
import AsapSketchlib.IntervalQueries
import AsapSketchlib.HistogramMass
import AsapSketchlib.HydraAnswers
import AsapSketchlib.FoldHeaps
import AsapSketchlib.MergeAnswers
import AsapSketchlib.MicroExactness
import AsapSketchlib.MicroMerge
import AsapSketchlib.MicroClocks
import AsapSketchlib.L2hhWorkers
import AsapSketchlib.HashBudget
import AsapSketchlib.CocoOcto
import AsapSketchlib.Bloom
import AsapSketchlib.Kmv
import AsapSketchlib.KllCdf
import AsapSketchlib.SparseCodec
import AsapSketchlib.HipSteps
import AsapSketchlib.ElasticTransparency
import AsapSketchlib.UnivMonQPrepared
import AsapSketchlib.SliceMerging
import AsapSketchlib.UnivMonQLayout
import AsapSketchlib.KllProtoItems
import AsapSketchlib.PortableFailClosed
import AsapSketchlib.PortableTopKWire
import AsapSketchlib.PortableDdSketchQuantiles
import AsapSketchlib.UniformRoundTrip
import AsapSketchlib.EnvelopeFraming
import AsapSketchlib.HistogramRoundTrip
import AsapSketchlib.TablePersistence
import AsapSketchlib.HllOcto
import AsapSketchlib.DdOcto
import AsapSketchlib.UnivMonQOrdered
